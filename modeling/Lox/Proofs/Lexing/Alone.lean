import Lox.Proofs.Lexing.Separation

/-!
# Lexemes by themselves

A text that is one lexeme is taken whole (`takes_of_contains`), and then it is one token
(`tokensFrom_of_takes_alone`). What is taken somewhere in a text is taken too if less follows it
(`Takes.of_append`), so it is taken by itself. Such a text is complete: no string is open at its
end, and it does not end in a comment. Complete texts with a blank between them are a complete text
(`IsComplete.append`), and each of them has the tokens that it has by itself
(`IsComplete.tokensFrom_append`).
-/

set_option autoImplicit false
set_option relaxedAutoImplicit false

namespace Lox

variable {lexeme : List Char}

/-! ### One lexeme -/

namespace LexemeClass

variable {kind : LexemeClass}

/-- No lexeme begins with a blank. -/
theorem Contains.not_isBlank_head (hcontains : kind.Contains lexeme) :
    ∀ head ∈ lexeme.head?, ¬ IsBlank head := by
  intro head hhead
  cases hcontains with
  | symbol mark => cases mark <;> cases hhead <;> decide
  | word hletter _ =>
    cases hhead
    exact hletter.not_isBlank
  | whole hdigits =>
    exact ((Contains.whole hdigits).isDecimalDigit_head head hhead).not_isBlank
  | fraction hwhole hfraction =>
    exact ((Contains.fraction hwhole hfraction).isDecimalDigit_head head hhead).not_isBlank
  | string _ =>
    cases hhead
    decide
  | comment _ =>
    cases hhead
    decide

/-- Only comments begin as comments do. -/
theorem Contains.eq_comment (hcontains : kind.Contains lexeme)
    (hcomment : Contains .comment lexeme) : kind = .comment := by
  obtain ⟨characters, rfl⟩ : ∃ characters, lexeme = '/' :: '/' :: characters := by
    cases hcomment
    exact ⟨_, rfl⟩
  generalize htext : '/' :: '/' :: characters = text at hcontains
  cases hcontains with
  | symbol mark => cases mark <;> cases htext
  | word hletter _ =>
    cases htext
    exact absurd hletter (by decide)
  | whole hdigits =>
    subst htext
    exact absurd ((Contains.whole hdigits).isDecimalDigit_head '/' rfl) (by decide)
  | @fraction whole fraction hwhole hfraction =>
    have hhead : '/' ∈ (whole ++ '.' :: fraction).head? := htext ▸ rfl
    exact absurd ((Contains.fraction hwhole hfraction).isDecimalDigit_head '/' hhead) (by decide)
  | string _ => cases htext
  | comment _ => rfl

end LexemeClass

/-- A lexeme with nothing behind it is the longest with which it begins. -/
theorem takes_of_contains {kind : LexemeClass} {content : Content}
    (hcontains : kind.Contains lexeme) (hdenotes : kind.Denotes lexeme content) :
    Takes lexeme ⟨content, lexeme⟩ [] := by
  have hlongest : IsLongestLexeme kind lexeme [] := by
    refine ⟨hcontains, fun start _ hleads ↦ ?_⟩
    rw [List.append_nil] at hleads
    exact hleads.length_le
  have hstart : ∀ character ∈ (lexeme ++ []).head?, ¬ IsBlank character := by
    rw [List.append_nil]
    exact hcontains.not_isBlank_head
  have htakes := Takes.lexeme hstart hlongest hdenotes
  rwa [List.append_nil] at htakes

theorem takes_symbol_alone (mark : Symbol) :
    Takes mark.characters ⟨.token (.symbol mark), mark.characters⟩ [] :=
  takes_of_contains (.symbol mark) (.symbol mark)

theorem pieces_of_takes_alone {piece : Piece} (htakes : Takes lexeme piece []) :
    pieces lexeme = [piece] := by
  rw [pieces_of_takes htakes, pieces_nil]

theorem tokensFrom_of_takes_alone {kind : TokenKind}
    (htakes : Takes lexeme ⟨.token kind, lexeme⟩ []) (line : Nat) :
    tokensFrom line lexeme = [⟨kind, String.ofList lexeme, lineAfter line lexeme⟩] := by
  rw [tokensFrom_of_takes htakes, tokensFrom_nil]

/-! ### Less behind a lexeme -/

section Less

variable {rest later : List Char}

theorem IsLongestLexeme.of_append {kind : LexemeClass}
    (hlongest : IsLongestLexeme kind lexeme (rest ++ later)) :
    IsLongestLexeme kind lexeme rest := by
  refine ⟨hlongest.contains, fun start hstart hleads ↦ hlongest.length_le start hstart ?_⟩
  rw [← List.append_assoc]
  exact hleads.trans (List.prefix_append _ later)

theorem BeginsWithLexeme.append {text : List Char} (hbegins : BeginsWithLexeme text)
    (later : List Char) : BeginsWithLexeme (text ++ later) := by
  obtain ⟨start, hstart, hleads⟩ := hbegins
  exact ⟨start, hstart, hleads.trans (List.prefix_append _ later)⟩

/-- Whatever is taken but an open string is taken too if less follows it. -/
theorem Takes.of_append {content : Content}
    (htakes : Takes (lexeme ++ (rest ++ later)) ⟨content, lexeme⟩ (rest ++ later))
    (hclosed : content ≠ .openString) : Takes (lexeme ++ rest) ⟨content, lexeme⟩ rest := by
  generalize hwhole : lexeme ++ (rest ++ later) = whole at htakes
  generalize hleft : rest ++ later = left at htakes
  cases htakes with
  | blank hblank => exact .blank hblank
  | lexeme hstart hlongest hdenotes =>
    subst hleft
    have hne := hlongest.contains.ne_nil
    refine .lexeme ?_ hlongest.of_append hdenotes
    rwa [List.head?_append_of_ne_nil _ hne, ← List.head?_append_of_ne_nil _ hne]
  | unrecognized hstart hnone hquote =>
    subst hleft
    exact .unrecognized hstart (fun hbegins ↦ hnone (hbegins.append later)) hquote
  | openString _ => exact absurd rfl hclosed

end Less

/-! ### Complete texts -/

/-- Nothing behind the text changes what is in it, if a blank comes first. -/
structure IsComplete (text : List Char) : Prop where
  isClosed : IsClosed text
  not_endsInComment : ¬ EndsInComment text

theorem isComplete_nil : IsComplete [] := by
  refine ⟨isClosed_nil, ?_⟩
  rintro ⟨piece, hlast, _⟩
  rw [pieces_nil] at hlast
  cases hlast

/-- A token is no comment. -/
theorem Takes.not_comment {kind : TokenKind} {text rest : List Char}
    (htakes : Takes text ⟨.token kind, lexeme⟩ rest) :
    ¬ LexemeClass.comment.Contains lexeme := by
  intro hcomment
  cases htakes with
  | lexeme _ hlongest hdenotes =>
    cases hlongest.contains.eq_comment hcomment
    cases hdenotes
  | unrecognized _ _ _ => cases hcomment

theorem isComplete_of_takes_alone {kind : TokenKind}
    (htakes : Takes lexeme ⟨.token kind, lexeme⟩ []) : IsComplete lexeme := by
  have hpieces := pieces_of_takes_alone htakes
  constructor
  · rw [IsClosed, hpieces]
    simp
  · rintro ⟨piece, hlast, hcomment⟩
    rw [hpieces] at hlast
    cases hlast
    exact htakes.not_comment hcomment

namespace IsComplete

variable {first second : List Char} {separator : Char}

theorem append (hfirst : IsComplete first) (hsecond : IsComplete second)
    (hblank : IsBlank separator) : IsComplete (first ++ separator :: second) := by
  have hpieces := pieces_append_separator hfirst.isClosed hblank
    (.inr hfirst.not_endsInComment) second
  constructor
  · exact (isClosed_append_separator_iff hfirst.isClosed hblank
      (.inr hfirst.not_endsInComment) second).mpr hsecond.isClosed
  · rintro ⟨last, hlast, hcomment⟩
    rw [hpieces, List.getLast?_append, List.getLast?_cons] at hlast
    cases hsecondLast : (pieces second).getLast? with
    | none =>
      rw [hsecondLast] at hlast
      cases hlast
      cases hcomment
    | some piece =>
      rw [hsecondLast] at hlast
      cases hlast
      exact hsecond.not_endsInComment ⟨piece, hsecondLast, hcomment⟩

theorem tokensFrom_append (hfirst : IsComplete first) (hblank : IsBlank separator) (line : Nat)
    (second : List Char) :
    tokensFrom line (first ++ separator :: second) =
      tokensFrom line first ++ tokensFrom (lineAfter line (first ++ [separator])) second :=
  tokensFrom_append_separator hfirst.isClosed hblank (.inr hfirst.not_endsInComment) line second

end IsComplete

end Lox
