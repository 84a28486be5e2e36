import Mathlib
import Lox.Scan

/-!
# The longest lexeme

There are five classes of lexemes: symbols, words, numerals, strings and comments.
`LexemeClass.Contains` says which texts belong to a class, and `LexemeClass.Denotes` what a lexeme
of a class stands for. `Takes` is a step of the lexer that knows of nothing but the classes: it
passes a blank, or else takes the longest lexeme with which the text begins. Where there is none, a
quote opens a string that is never closed, and any other character is taken by itself. Such a step
can always be made (`exists_takes`).
-/

set_option autoImplicit false
set_option relaxedAutoImplicit false

namespace Lox

/-! ### Characters -/

/-- A character that may stand between lexemes: a space, a tab, a carriage return or a newline. -/
def IsBlank (character : Char) : Prop :=
  character = ' ' ∨ character = '\t' ∨ character = '\r' ∨ character = '\n'

/-- A character with which a word may begin. -/
def IsLetter (character : Char) : Prop :=
  'A' ≤ character ∧ character ≤ 'Z' ∨ 'a' ≤ character ∧ character ≤ 'z' ∨ character = '_'

def IsDecimalDigit (character : Char) : Prop :=
  '0' ≤ character ∧ character ≤ '9'

instance : DecidablePred IsBlank :=
  fun _ ↦ inferInstanceAs (Decidable (_ ∨ _))

instance : DecidablePred IsLetter :=
  fun _ ↦ inferInstanceAs (Decidable (_ ∨ _))

instance : DecidablePred IsDecimalDigit :=
  fun _ ↦ inferInstanceAs (Decidable (_ ∧ _))

/-- One digit or more. -/
structure IsDigits (digits : List Char) : Prop where
  ne_nil : digits ≠ []
  isDecimalDigit : ∀ character ∈ digits, IsDecimalDigit character

/-! ### Classes -/

/-- The word that is a keyword. -/
def Keyword.characters : Keyword → List Char
  | andWord => ['a', 'n', 'd']
  | classWord => ['c', 'l', 'a', 's', 's']
  | elseWord => ['e', 'l', 's', 'e']
  | falseWord => ['f', 'a', 'l', 's', 'e']
  | funWord => ['f', 'u', 'n']
  | forWord => ['f', 'o', 'r']
  | ifWord => ['i', 'f']
  | nilWord => ['n', 'i', 'l']
  | orWord => ['o', 'r']
  | printWord => ['p', 'r', 'i', 'n', 't']
  | returnWord => ['r', 'e', 't', 'u', 'r', 'n']
  | superWord => ['s', 'u', 'p', 'e', 'r']
  | thisWord => ['t', 'h', 'i', 's']
  | trueWord => ['t', 'r', 'u', 'e']
  | varWord => ['v', 'a', 'r']
  | whileWord => ['w', 'h', 'i', 'l', 'e']

theorem Keyword.toList_text (word : Keyword) : word.text.toList = word.characters := by
  cases word <;> rfl

inductive LexemeClass
  | symbol
  | word
  | numeral
  | string
  | comment

namespace LexemeClass

/-- The texts that belong to a class of lexemes. A numeral has no point unless digits follow it, and
a comment ends where its line does. -/
inductive Contains : LexemeClass → List Char → Prop
  | symbol (mark : Symbol) : Contains symbol mark.characters
  | word {head : Char} {tail : List Char} (hhead : IsLetter head)
      (htail : ∀ character ∈ tail, IsLetter character ∨ IsDecimalDigit character) :
      Contains word (head :: tail)
  | whole {digits : List Char} (hdigits : IsDigits digits) : Contains numeral digits
  | fraction {whole fraction : List Char} (hwhole : IsDigits whole)
      (hfraction : IsDigits fraction) : Contains numeral (whole ++ '.' :: fraction)
  | string {characters : List Char} (hcharacters : '"' ∉ characters) :
      Contains string ('"' :: (characters ++ ['"']))
  | comment {characters : List Char} (hcharacters : '\n' ∉ characters) :
      Contains comment ('/' :: '/' :: characters)

/-- What a lexeme of a class stands for: a word for the keyword that it spells or else for a name, a
numeral for the number nearest to it, a string for what is between its quotes, and a comment for
nothing. -/
inductive Denotes : LexemeClass → List Char → Content → Prop
  | symbol (mark : Symbol) : Denotes symbol mark.characters (.token (.symbol mark))
  | keyword (keyword : Keyword) : Denotes word keyword.characters (.token (.keyword keyword))
  | name {lexeme : List Char} (hname : ∀ keyword : Keyword, keyword.characters ≠ lexeme) :
      Denotes word lexeme (.token .identifier)
  | numeral (lexeme : List Char) :
      Denotes numeral lexeme (.token (.number (Number.ofNumeral lexeme)))
  | string (characters : List Char) :
      Denotes string ('"' :: (characters ++ ['"'])) (.token (.string (String.ofList characters)))
  | comment (lexeme : List Char) : Denotes comment lexeme .layout

variable {kind : LexemeClass} {lexeme : List Char}

theorem Contains.ne_nil (hcontains : kind.Contains lexeme) : lexeme ≠ [] := by
  cases hcontains with
  | symbol mark => exact mark.characters_ne_nil
  | whole hdigits => exact hdigits.ne_nil
  | _ => simp

/-- There is no quote inside a string. -/
theorem Contains.quote_not_mem {characters : List Char}
    (hcontains : Contains .string ('"' :: (characters ++ ['"']))) : '"' ∉ characters := by
  generalize hlexeme : '"' :: (characters ++ ['"']) = lexeme at hcontains
  cases hcontains with
  | string hother => rwa [List.append_cancel_right (List.cons.inj hlexeme).2]

theorem Contains.exists_denotes (hcontains : kind.Contains lexeme) :
    ∃ content, kind.Denotes lexeme content := by
  cases hcontains with
  | symbol mark => exact ⟨_, .symbol mark⟩
  | @word head tail _ _ =>
    by_cases hkeyword : ∃ keyword : Keyword, keyword.characters = head :: tail
    · obtain ⟨keyword, heq⟩ := hkeyword
      exact ⟨_, heq ▸ Denotes.keyword keyword⟩
    · exact ⟨_, .name (not_exists.mp hkeyword)⟩
  | whole _ => exact ⟨_, .numeral _⟩
  | fraction _ _ => exact ⟨_, .numeral _⟩
  | string _ => exact ⟨_, .string _⟩
  | comment _ => exact ⟨_, .comment _⟩

end LexemeClass

/-! ### The longest lexeme -/

/-- A text that belongs to some class. -/
def IsLexeme (text : List Char) : Prop :=
  ∃ kind : LexemeClass, kind.Contains text

/-- Some prefix of the text is a lexeme. -/
def BeginsWithLexeme (text : List Char) : Prop :=
  ∃ lexeme, IsLexeme lexeme ∧ lexeme <+: text

/-- A quote with which no lexeme begins is the only one left. -/
theorem not_mem_of_not_beginsWithLexeme {rest : List Char}
    (hnone : ¬ BeginsWithLexeme ('"' :: rest)) : '"' ∉ rest := by
  intro hmem
  obtain ⟨characters, later, rfl, hcharacters⟩ := List.eq_append_cons_of_mem hmem
  refine hnone ⟨_, ⟨.string, .string hcharacters⟩, later, ?_⟩
  simp

/-- A lexeme of the given class such that no lexeme with which the text begins is longer. The text
is given as the lexeme and what follows it. -/
structure IsLongestLexeme (kind : LexemeClass) (lexeme rest : List Char) : Prop where
  contains : kind.Contains lexeme
  length_le : ∀ start, IsLexeme start → start <+: lexeme ++ rest → start.length ≤ lexeme.length

/-- The longest lexeme does not go on with what follows it. -/
theorem IsLongestLexeme.not_isLexeme_append {kind : LexemeClass} {lexeme more rest : List Char}
    (hlongest : IsLongestLexeme kind lexeme (more ++ rest)) (hmore : more ≠ []) :
    ¬ IsLexeme (lexeme ++ more) := by
  intro hlexeme
  have hleads : lexeme ++ more <+: lexeme ++ (more ++ rest) :=
    ⟨rest, List.append_assoc lexeme more rest⟩
  have hle := hlongest.length_le _ hlexeme hleads
  rw [List.length_append] at hle
  have hpos := List.length_pos_iff.mpr hmore
  omega

theorem BeginsWithLexeme.exists_longest {text : List Char} (hbegins : BeginsWithLexeme text) :
    ∃ kind lexeme rest, text = lexeme ++ rest ∧ IsLongestLexeme kind lexeme rest := by
  classical
  have htake {lexeme : List Char} (hlexeme : IsLexeme lexeme) (hleads : lexeme <+: text) :
      IsLexeme (text.take lexeme.length) := by
    rwa [← List.prefix_iff_eq_take.mp hleads]
  obtain ⟨lexeme, hlexeme, hleads⟩ := hbegins
  let length := Nat.findGreatest (fun length ↦ IsLexeme (text.take length)) text.length
  obtain ⟨kind, hcontains⟩ : IsLexeme (text.take length) :=
    @Nat.findGreatest_spec _ (fun length ↦ IsLexeme (text.take length)) _ _ hleads.length_le
      (htake hlexeme hleads)
  refine ⟨kind, text.take length, text.drop length, (List.take_append_drop _ _).symm,
    hcontains, ?_⟩
  intro start hstart hstartLeads
  rw [List.take_append_drop] at hstartLeads
  have hle : start.length ≤ length :=
    Nat.le_findGreatest hstartLeads.length_le (htake hstart hstartLeads)
  rw [List.length_take]
  exact le_min hle hstartLeads.length_le

/-! ### One step -/

/-- The first piece of a text, and what follows it. -/
inductive Takes : List Char → Piece → List Char → Prop
  | blank {character : Char} {rest : List Char} (hblank : IsBlank character) :
      Takes (character :: rest) ⟨.layout, [character]⟩ rest
  | lexeme {kind : LexemeClass} {lexeme rest : List Char} {content : Content}
      (hstart : ∀ character ∈ (lexeme ++ rest).head?, ¬ IsBlank character)
      (hlongest : IsLongestLexeme kind lexeme rest) (hdenotes : kind.Denotes lexeme content) :
      Takes (lexeme ++ rest) ⟨content, lexeme⟩ rest
  | unrecognized {character : Char} {rest : List Char} (hstart : ¬ IsBlank character)
      (hnone : ¬ BeginsWithLexeme (character :: rest)) (hquote : character ≠ '"') :
      Takes (character :: rest) ⟨.token .unrecognized, [character]⟩ rest
  | openString {rest : List Char} (hnone : ¬ BeginsWithLexeme ('"' :: rest)) :
      Takes ('"' :: rest) ⟨.openString, '"' :: rest⟩ []

theorem exists_takes (head : Char) (tail : List Char) :
    ∃ piece rest, Takes (head :: tail) piece rest := by
  by_cases hblank : IsBlank head
  · exact ⟨_, _, .blank hblank⟩
  by_cases hbegins : BeginsWithLexeme (head :: tail)
  · obtain ⟨kind, lexeme, rest, htext, hlongest⟩ := hbegins.exists_longest
    obtain ⟨content, hdenotes⟩ := hlongest.contains.exists_denotes
    have hstart : ∀ character ∈ (lexeme ++ rest).head?, ¬ IsBlank character := by
      rw [← htext]
      intro character hmem
      cases hmem
      exact hblank
    exact ⟨_, _, htext ▸ Takes.lexeme hstart hlongest hdenotes⟩
  by_cases hquote : head = '"'
  · subst hquote
    exact ⟨_, _, .openString hbegins⟩
  · exact ⟨_, _, .unrecognized hblank hbegins hquote⟩

end Lox
