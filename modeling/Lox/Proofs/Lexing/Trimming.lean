import Lox.Proofs.Lexing.Alone
import Lox.Text

/-!
# The blanks at the ends of a text

A scan passes a blank that is not a newline without a trace wherever it stands at an end of the
text: at the front it is layout (`scanFrom_cons_blank`), and at the back it is layout, the end of a
comment or the end of a string that is open anyway (`scanFrom_append_blank`). So a text and what
trimming leaves of it have the same tokens and the same faults, if the white space at its ends is of
this kind (`scan_trim`). Other white space is no layout, and trimming takes away tokens with it.
-/

set_option autoImplicit false
set_option relaxedAutoImplicit false

namespace Lox

/-- A character that may stand between lexemes on one line. -/
def IsInlineBlank (character : Char) : Prop :=
  character = ' ' ∨ character = '\t' ∨ character = '\r'

theorem IsInlineBlank.isBlank {character : Char} (hblank : IsInlineBlank character) :
    IsBlank character := by
  rcases hblank with rfl | rfl | rfl <;> decide

theorem IsInlineBlank.ne_newline {character : Char} (hblank : IsInlineBlank character) :
    character ≠ '\n' := by
  rcases hblank with rfl | rfl | rfl <;> decide

/-! ### Blanks at the front -/

theorem lineAfter_concat {character : Char} (hne : character ≠ '\n') (line : Nat)
    (text : List Char) : lineAfter line (text ++ [character]) = lineAfter line text := by
  simp [lineAfter, hne]

section OneBlank

variable {character : Char} {text lexeme rest : List Char}

theorem scanFrom_cons_blank (hblank : IsInlineBlank character) (line : Nat) (text : List Char) :
    scanFrom line (character :: text) = scanFrom line text := by
  have hline : lineAfter line [character] = line := lineAfter_concat hblank.ne_newline line []
  rw [scanFrom_of_takes (.blank hblank.isBlank), hline]
  rfl

/-! ### Blanks at the back -/

theorem takes_openString {characters : List Char} (hquote : '"' ∉ characters) :
    Takes ('"' :: characters) ⟨.openString, '"' :: characters⟩ [] :=
  takes_iff_cut.mpr (Piece.cutString_of_not_mem hquote)

/-- An open string goes on to the end, whatever is added but a quote. -/
theorem Takes.openString_concat (htakes : Takes text ⟨.openString, lexeme⟩ rest)
    (hquote : character ≠ '"') :
    Takes (text ++ [character]) ⟨.openString, lexeme ++ [character]⟩ [] := by
  obtain ⟨characters, rfl, rfl, -, hcharacters⟩ := htakes.exists_of_openString
  refine takes_openString fun hmem ↦ ?_
  rcases List.mem_append.mp hmem with hmem | hmem
  · exact hcharacters hmem
  · exact hquote (List.mem_singleton.mp hmem).symm

/-- A comment goes on to the end of its line. -/
theorem takes_comment_concat (hcomment : LexemeClass.comment.Contains lexeme)
    (hne : character ≠ '\n') :
    Takes (lexeme ++ [character]) ⟨.layout, lexeme ++ [character]⟩ [] := by
  cases hcomment with
  | @comment characters hcharacters =>
    refine takes_of_contains (.comment fun hmem ↦ ?_) (.comment _)
    rcases List.mem_append.mp hmem with hmem | hmem
    · exact hcharacters hmem
    · exact hne (List.mem_singleton.mp hmem).symm

theorem scanFrom_append_blank (hblank : IsInlineBlank character) (line : Nat) (text : List Char) :
    scanFrom line (text ++ [character]) = scanFrom line text := by
  have hseparator := hblank.isBlank
  have hne := hblank.ne_newline
  induction text using takes_induction generalizing line with
  | nil => exact scanFrom_cons_blank hblank line []
  | step text rest piece htakes ih =>
    rw [scanFrom_of_takes htakes]
    obtain ⟨_ | kind | _, lexeme⟩ := piece
    · by_cases hlast : LexemeClass.comment.Contains lexeme ∧ rest = []
      · obtain ⟨hcomment, rfl⟩ := hlast
        have htext : lexeme = text := (List.append_nil _).symm.trans htakes.append_eq
        rw [← htext, scanFrom_of_takes (takes_comment_concat hcomment hne), lineAfter_concat hne]
        rfl
      · rw [scanFrom_of_takes (htakes.append_separator (by simp) hseparator (.inr hlast) []), ih]
    · have hlast : ¬ (LexemeClass.comment.Contains lexeme ∧ rest = []) :=
        not_and_of_not_left _ htakes.not_comment
      rw [scanFrom_of_takes (htakes.append_separator (by simp) hseparator (.inr hlast) []), ih]
    · have hquote : character ≠ '"' := by
        rintro rfl
        exact absurd hseparator (by decide)
      obtain rfl := htakes.eq_nil_of_openString
      rw [scanFrom_of_takes (htakes.openString_concat hquote), lineAfter_concat hne]
      rfl

end OneBlank

/-! ### Trimming -/

section Trimming

variable {leading trailing : List Char}

theorem scanFrom_append_blanks (hblanks : ∀ character ∈ trailing, IsInlineBlank character)
    (line : Nat) (text : List Char) : scanFrom line (text ++ trailing) = scanFrom line text := by
  induction trailing generalizing text with
  | nil => rw [List.append_nil]
  | cons character later ih =>
    rw [List.forall_mem_cons] at hblanks
    rw [List.append_cons, ih hblanks.2, scanFrom_append_blank hblanks.1]

theorem scanFrom_blanks_append (hblanks : ∀ character ∈ leading, IsInlineBlank character)
    (line : Nat) (text : List Char) : scanFrom line (leading ++ text) = scanFrom line text := by
  induction leading with
  | nil => rfl
  | cons character later ih =>
    rw [List.forall_mem_cons] at hblanks
    rw [List.cons_append, scanFrom_cons_blank hblanks.1, ih hblanks.2]

end Trimming

namespace Text

/-- The white space at the ends of the text is such as may stand between lexemes on one line. -/
structure HasPlainEnds (text : List Char) : Prop where
  leading : ∀ character ∈ text.takeWhile isBlank, IsInlineBlank character
  trailing : ∀ character ∈ text.rtakeWhile isBlank, IsInlineBlank character

theorem trim_eq_rdropWhile (text : List Char) :
    trim text = (text.dropWhile isBlank).rdropWhile isBlank :=
  rfl

theorem takeWhile_prefix_takeWhile_append (property : Char → Bool) (first second : List Char) :
    first.takeWhile property <+: (first ++ second).takeWhile property := by
  rw [List.takeWhile_append]
  split
  · exact (List.takeWhile_prefix property).trans (List.prefix_append first _)
  · exact List.prefix_rfl

/-- Behind what trimming leaves there is white space from the back of the text. -/
theorem exists_trim_append_eq (text : List Char) :
    ∃ trailing, text = text.takeWhile isBlank ++ (trim text ++ trailing) ∧
      trailing ⊆ text.rtakeWhile isBlank := by
  refine ⟨(text.dropWhile isBlank).rtakeWhile isBlank, ?_, ?_⟩
  · rw [trim_eq_rdropWhile, List.rdropWhile_append_rtakeWhile, List.takeWhile_append_dropWhile]
  · intro character hmem
    have hfront := takeWhile_prefix_takeWhile_append isBlank (text.dropWhile isBlank).reverse
      (text.takeWhile isBlank).reverse
    rw [← List.reverse_append, List.takeWhile_append_dropWhile] at hfront
    exact List.mem_reverse.mpr (hfront.subset (List.mem_reverse.mp hmem))

end Text

/-- Trimming changes nothing of what a scan finds. -/
theorem scan_trim {source : String} (hends : Text.HasPlainEnds source.toList) :
    scan (String.ofList (Text.trim source.toList)) = scan source := by
  obtain ⟨trailing, htext, hsubset⟩ := Text.exists_trim_append_eq source.toList
  have htrailing : ∀ character ∈ trailing, IsInlineBlank character :=
    fun character hmem ↦ hends.trailing character (hsubset hmem)
  have hscan : scanFrom 1 source.toList = scanFrom 1 (Text.trim source.toList) := by
    conv_lhs => rw [htext]
    rw [scanFrom_blanks_append hends.leading, scanFrom_append_blanks htrailing]
  rw [scan_eq_scanFrom, String.toList_ofList, scan_eq_scanFrom, hscan]

end Lox
