import Lox.Proofs.Lexing.MaximalMunch

/-!
# A scan tiles the source text

Nothing of a source text is lost in its scan but layout: the text is the lexemes of its tokens with
gaps between them, which hold blanks and comments only (`IsGap`); what is behind the last token may
also be a comment that the end of the text cuts off, or a string that is never closed (`IsLastGap`).
A token is on the line where its lexeme ends in this tiling, and the only token of the end is the
last one (`exists_tiling_scan`).
-/

set_option autoImplicit false
set_option relaxedAutoImplicit false

namespace Lox

/-! ### Gaps -/

/-- Blanks and comments, each comment with the newline at its end. -/
inductive IsGap : List Char → Prop
  | nil : IsGap []
  | blank {gap : List Char} {character : Char} (hgap : IsGap gap) (hblank : IsBlank character) :
      IsGap (gap ++ [character])
  | comment {gap characters : List Char} (hgap : IsGap gap) (hcharacters : '\n' ∉ characters) :
      IsGap (gap ++ '/' :: '/' :: (characters ++ ['\n']))

/-- A gap that nothing follows may end with a comment without a newline or with an open string. -/
inductive IsLastGap : List Char → Prop
  | gap {gap : List Char} (hgap : IsGap gap) : IsLastGap gap
  | comment {gap characters : List Char} (hgap : IsGap gap) (hcharacters : '\n' ∉ characters) :
      IsLastGap (gap ++ '/' :: '/' :: characters)
  | openString {gap characters : List Char} (hgap : IsGap gap) (hcharacters : '"' ∉ characters) :
      IsLastGap (gap ++ '"' :: characters)

/-- What has been passed since the latest lexeme when the rest is still to come: a gap, or a gap and
a comment whose newline is next, unless nothing is left. -/
inductive IsGapBefore (rest : List Char) : List Char → Prop
  | gap {gap : List Char} (hgap : IsGap gap) : IsGapBefore rest gap
  | comment {gap characters : List Char} (hgap : IsGap gap) (hcharacters : '\n' ∉ characters)
      (hrest : ∀ character ∈ rest.head?, character = '\n') :
      IsGapBefore rest (gap ++ '/' :: '/' :: characters)

namespace IsGapBefore

variable {character : Char} {gap text lexeme rest : List Char}

theorem isLastGap (hgap : IsGapBefore [] gap) : IsLastGap gap := by
  cases hgap with
  | gap hgap => exact .gap hgap
  | comment hgap hcharacters _ => exact .comment hgap hcharacters

theorem isGap (hgap : IsGapBefore text gap) (hne : text ≠ [])
    (hstart : ∀ character ∈ text.head?, ¬ IsBlank character) : IsGap gap := by
  cases hgap with
  | gap hgap => exact hgap
  | comment _ _ hnewline =>
    obtain ⟨head, tail, rfl⟩ := List.exists_cons_of_ne_nil hne
    have hblank : IsBlank head := by
      rw [hnewline head rfl]
      exact .inr (.inr (.inr rfl))
    exact absurd hblank (hstart head rfl)

theorem blank (hgap : IsGapBefore (character :: rest) gap) (hblank : IsBlank character) :
    IsGapBefore rest (gap ++ [character]) := by
  cases hgap with
  | gap hgap => exact .gap (hgap.blank hblank)
  | comment hgap hcharacters hnewline =>
    rw [hnewline character rfl, List.append_assoc]
    exact .gap (hgap.comment hcharacters)

/-- Layout makes a gap longer. -/
theorem layout (hgap : IsGapBefore text gap) (htakes : Takes text ⟨.layout, lexeme⟩ rest) :
    IsGapBefore rest (gap ++ lexeme) := by
  have hne := htakes.ne_nil
  cases htakes with
  | blank hblank => exact hgap.blank hblank
  | lexeme hstart hlongest hdenotes =>
    cases hdenotes
    have hnewline := hlongest.newline_of_comment
    obtain ⟨hcontains, _⟩ := hlongest
    cases hcontains with
    | comment hcharacters => exact .comment (hgap.isGap hne hstart) hcharacters hnewline

/-- A token ends a gap. -/
theorem isGap_of_token {kind : TokenKind} (hgap : IsGapBefore text gap)
    (htakes : Takes text ⟨.token kind, lexeme⟩ rest) : IsGap gap := by
  have hne := htakes.ne_nil
  cases htakes with
  | lexeme hstart _ _ => exact hgap.isGap hne hstart
  | unrecognized hstart _ _ => exact hgap.isGap hne (by simpa using hstart)

/-- An open string is the last of a gap. -/
theorem isLastGap_of_openString (hgap : IsGapBefore text gap)
    (htakes : Takes text ⟨.openString, lexeme⟩ rest) : IsLastGap (gap ++ lexeme) := by
  have hne := htakes.ne_nil
  obtain ⟨characters, rfl, rfl, -, hcharacters⟩ := htakes.exists_of_openString
  have hquote : ¬ IsBlank '"' := by decide
  exact .openString (hgap.isGap hne (by simpa using hquote)) hcharacters

end IsGapBefore

/-! ### Tilings -/

/-- A token with the gap before its lexeme. -/
structure Tile where
  gap : List Char
  token : Token

def Tile.text (tile : Tile) : List Char :=
  tile.gap ++ tile.token.lexeme.toList

theorem Tile.text_ofList (gap lexeme : List Char) (kind : TokenKind) (line : Nat) :
    Tile.text ⟨gap, kind, String.ofList lexeme, line⟩ = gap ++ lexeme := by
  rw [text, String.toList_ofList]

/-- The tiles and the last gap make up a text that begins on the given line. -/
structure Tiling (line : Nat) (text : List Char) (tiles : List Tile) (last : List Char) : Prop where
  text_eq : text = tiles.flatMap Tile.text ++ last
  isGap : ∀ tile ∈ tiles, IsGap tile.gap
  isLastGap : IsLastGap last
  line_eq : ∀ (before after : List Tile) (tile : Tile), tiles = before ++ tile :: after →
    tile.token.line = line + (before.flatMap Tile.text ++ tile.text).count '\n'

namespace Tiling

variable {line : Nat} {last : List Char}

theorem nil (hlast : IsLastGap last) : Tiling line last [] last where
  text_eq := rfl
  isGap := by simp
  isLastGap := hlast
  line_eq := by simp

theorem cons {gap lexeme text : List Char} {kind : TokenKind} {tiles : List Tile}
    (hgap : IsGap gap) (htiling : Tiling (lineAfter line (gap ++ lexeme)) text tiles last) :
    Tiling line (gap ++ lexeme ++ text)
      (⟨gap, kind, String.ofList lexeme, lineAfter line (gap ++ lexeme)⟩ :: tiles) last where
  text_eq := by
    rw [List.flatMap_cons, Tile.text_ofList, List.append_assoc (gap ++ lexeme), ← htiling.text_eq]
  isGap := by
    intro other hmem
    rcases List.mem_cons.mp hmem with rfl | hmem
    · exact hgap
    · exact htiling.isGap other hmem
  isLastGap := htiling.isLastGap
  line_eq := by
    intro before after other htiles
    change other.token.line = lineAfter line (before.flatMap Tile.text ++ other.text)
    cases before with
    | nil =>
      cases htiles
      rw [Tile.text_ofList]
      rfl
    | cons first before =>
      cases htiles
      have hother : other.token.line = lineAfter (lineAfter line (gap ++ lexeme))
          (before.flatMap Tile.text ++ other.text) :=
        htiling.line_eq before after other rfl
      rw [hother, ← lineAfter_append, List.flatMap_cons, Tile.text_ofList,
        List.append_assoc (gap ++ lexeme)]

end Tiling

/-! ### The tiling that a scan is -/

theorem Takes.isEnd_of_token {kind : TokenKind} {text lexeme rest : List Char}
    (htakes : Takes text ⟨.token kind, lexeme⟩ rest) : kind.isEnd = false := by
  cases htakes with
  | lexeme _ _ hdenotes => cases hdenotes <;> rfl
  | unrecognized _ _ _ => rfl

/-- Left to right, with what has been passed since the latest lexeme: the invariant is that it is a
gap as far as it goes. -/
theorem exists_tiling_of_isGapBefore {gap text : List Char} (hgap : IsGapBefore text gap)
    (line : Nat) :
    ∃ tiles last, Tiling line (gap ++ text) tiles last ∧
      (∀ tile ∈ tiles, tile.token.kind.isEnd = false) ∧
      (scanFrom (lineAfter line gap) text).tokens =
        tiles.map Tile.token ++ [⟨.endOfInput, "", lineAfter line (gap ++ text)⟩] := by
  induction text using takes_induction generalizing gap line with
  | nil =>
    rw [List.append_nil, scanFrom_nil]
    exact ⟨[], gap, .nil hgap.isLastGap, by simp, rfl⟩
  | step text rest piece htakes ih =>
    rw [scanFrom_of_takes htakes, ← htakes.append_eq, ← List.append_assoc]
    obtain ⟨_ | kind | _, lexeme⟩ := piece
    · have hlater := ih (hgap.layout htakes) line
      rw [lineAfter_append] at hlater
      exact hlater
    · obtain ⟨tiles, last, htiling, hkinds, htokens⟩ :=
        ih (.gap .nil) (lineAfter line (gap ++ lexeme))
      refine ⟨⟨gap, kind, String.ofList lexeme, lineAfter line (gap ++ lexeme)⟩ :: tiles, last,
        htiling.cons (hgap.isGap_of_token htakes), ?_, ?_⟩
      · simpa [htakes.isEnd_of_token] using hkinds
      · rw [← lineAfter_append, lineAfter_append line (gap ++ lexeme) rest]
        exact congrArg (List.cons _) htokens
    · have hlast := hgap.isLastGap_of_openString htakes
      obtain rfl := htakes.eq_nil_of_openString
      refine ⟨[], gap ++ lexeme, ?_, by simp, ?_⟩
      · rw [List.append_nil]
        exact .nil hlast
      · rw [← lineAfter_append, List.append_nil, scanFrom_nil]
        rfl

/-- A source text is tiled by the tokens of its scan but the last one, which is the only one of the
end, has an empty lexeme and is on the line on which the text ends. -/
theorem exists_tiling_scan (source : String) :
    ∃ tiles last, Tiling 1 source.toList tiles last ∧
      (∀ tile ∈ tiles, tile.token.kind.isEnd = false) ∧
      (scan source).tokens =
        tiles.map Tile.token ++ [⟨.endOfInput, "", 1 + source.toList.count '\n'⟩] :=
  exists_tiling_of_isGapBefore (.gap .nil) 1

end Lox
