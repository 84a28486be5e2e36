import Lox.Proofs.Lexing.Tiling
import Lox.Proofs.Relocation

/-!
# Texts with a separator between them

A blank ends whatever is before it but an open string, and a newline ends a comment too. So no step
of the scan looks across a separator (`Takes.append_separator`): the pieces of two texts with a
separator between them are the pieces of the one, the separator and the pieces of the other
(`pieces_append_separator`). The tokens of the second text are then those that it has by itself, on
lines further down (`tokensFrom_append_separator`, `tokensFrom_add`).
-/

set_option autoImplicit false
set_option relaxedAutoImplicit false

namespace Lox

/-! ### No step looks across a separator -/

/-- What a text and something behind it begin with is a beginning of the text or goes on behind
it. -/
theorem prefix_or_exists_of_prefix_append_cons {α : Type} {start text later : List α} {next : α}
    (hleads : start <+: text ++ next :: later) :
    start <+: text ∨ ∃ more, start = text ++ next :: more := by
  rcases List.prefix_or_prefix_of_prefix hleads (List.prefix_append text _) with hstart | htext
  · exact .inl hstart
  · obtain ⟨more, rfl⟩ := htext
    rcases List.prefix_cons_iff.mp ((List.prefix_append_right_inj text).mp hleads) with
      rfl | ⟨more, rfl, _⟩
    · exact .inl (by rw [List.append_nil])
    · exact .inr ⟨more, rfl⟩

namespace LexemeClass

variable {kind : LexemeClass} {lexeme more : List Char}

/-- Only strings begin with a quote. -/
theorem Contains.eq_string (hcontains : kind.Contains lexeme) (hquote : '"' ∈ lexeme.head?) :
    kind = .string := by
  cases hcontains with
  | symbol mark => cases mark <;> cases hquote
  | word hhead _ =>
    cases hquote
    exact absurd hhead (by decide)
  | whole hdigits =>
    exact absurd ((Contains.whole hdigits).isDecimalDigit_head _ hquote) (by decide)
  | fraction hwhole hfraction =>
    exact absurd ((Contains.fraction hwhole hfraction).isDecimalDigit_head _ hquote) (by decide)
  | string _ => rfl
  | comment _ => cases hquote

/-- No lexeme is a proper beginning of a string. -/
theorem Contains.eq_nil_of_string_append (hcontains : kind.Contains lexeme)
    (hstring : Contains .string (lexeme ++ more)) : more = [] := by
  generalize htext : lexeme ++ more = text at hstring
  cases hstring with
  | @string characters hcharacters =>
    have hquote : '"' ∈ lexeme.head? := by
      rw [← List.head?_append_of_ne_nil _ hcontains.ne_nil, htext]
      rfl
    obtain rfl := hcontains.eq_string hquote
    cases hcontains with
    | @string shorter _ =>
      -- If there were more, the quote at the end of the shorter string would be inside the other.
      rcases List.eq_nil_or_concat more with rfl | ⟨inside, last, rfl⟩
      · rfl
      · simp only [List.concat_eq_append, List.cons_append, ← List.append_assoc] at htext
        obtain ⟨rfl, _⟩ := List.append_inj' (List.cons.inj htext).2 rfl
        exact absurd (by simp) hcharacters

/-- A comment is one already before any of its characters that is no slash. -/
theorem Contains.comment_of_append {next : Char} (hne : lexeme ≠ []) (hnext : next ≠ '/')
    (hcomment : Contains .comment (lexeme ++ next :: more)) : Contains .comment lexeme := by
  obtain ⟨first, tail, rfl⟩ := List.exists_cons_of_ne_nil hne
  generalize htext : first :: tail ++ next :: more = text at hcomment
  cases hcomment with
  | comment hcharacters =>
    cases tail with
    | nil =>
      cases htext
      exact absurd rfl hnext
    | cons second tail =>
      cases htext
      exact .comment fun hmem ↦ hcharacters (List.mem_append_left _ hmem)

end LexemeClass

variable {text rest lexeme : List Char} {piece : Piece} {separator : Char}

/-- A lexeme that is the longest before a separator is so whatever follows the separator. -/
theorem IsLongestLexeme.append_separator {kind : LexemeClass}
    (hlongest : IsLongestLexeme kind lexeme rest) (hblank : IsBlank separator)
    (hcomment : separator = '\n' ∨ ¬ (LexemeClass.comment.Contains lexeme ∧ rest = []))
    (later : List Char) : IsLongestLexeme kind lexeme (rest ++ separator :: later) := by
  refine ⟨hlongest.contains, ?_⟩
  intro start hstart hleads
  rw [← List.append_assoc] at hleads
  rcases prefix_or_exists_of_prefix_append_cons hleads with hwithin | ⟨more, rfl⟩
  · exact hlongest.length_le start hstart hwithin
  -- A lexeme that goes on behind the separator holds it, so it is a string or a comment.
  obtain ⟨other, hother⟩ := hstart
  have hmem : separator ∈ lexeme ++ rest ++ separator :: more := by simp
  rcases hother.string_or_comment_of_isBlank_mem hblank hmem with rfl | ⟨rfl, hne⟩
  · rw [List.append_assoc] at hother
    have hnil := hlongest.contains.eq_nil_of_string_append hother
    simp at hnil
  · have hslash : separator ≠ '/' := by
      rintro rfl
      exact absurd hblank (by decide)
    have hnonempty : lexeme ++ rest ≠ [] :=
      List.append_ne_nil_of_left_ne_nil hlongest.contains.ne_nil rest
    have hwhole := hother.comment_of_append hnonempty hslash
    have hle := hlongest.length_le _ ⟨.comment, hwhole⟩ List.prefix_rfl
    obtain rfl : rest = [] := List.eq_nil_of_length_eq_zero (by simpa using hle)
    rw [List.append_nil] at hwhole
    exact absurd ⟨hwhole, rfl⟩ (hcomment.resolve_left hne)

/-- No lexeme but a string reaches over a blank from a place where none begins without it. -/
theorem BeginsWithLexeme.of_append_separator {head : Char} {tail later : List Char}
    (hbegins : BeginsWithLexeme (head :: tail ++ separator :: later)) (hblank : IsBlank separator)
    (hquote : head ≠ '"') : BeginsWithLexeme (head :: tail) := by
  obtain ⟨start, ⟨kind, hcontains⟩, hleads⟩ := hbegins
  rcases prefix_or_exists_of_prefix_append_cons hleads with hwithin | ⟨more, rfl⟩
  · exact ⟨start, ⟨kind, hcontains⟩, hwithin⟩
  have hmem : separator ∈ head :: tail ++ separator :: more := by simp
  have hkind := hcontains.string_or_comment_of_isBlank_mem hblank hmem
  rw [List.cons_append] at hcontains
  generalize tail ++ separator :: more = body at hcontains
  rcases hkind with rfl | ⟨rfl, _⟩
  · cases hcontains
    exact absurd rfl hquote
  · cases hcontains
    exact ⟨['/'], ⟨.symbol, .symbol .slash⟩, tail, rfl⟩

/-- A blank ends the first piece of a text, unless that is an open string or a comment; a newline
ends a comment. -/
theorem Takes.append_separator (htakes : Takes text piece rest)
    (hclosed : piece.content ≠ .openString) (hblank : IsBlank separator)
    (hcomment : separator = '\n' ∨ ¬ (LexemeClass.comment.Contains piece.lexeme ∧ rest = []))
    (later : List Char) :
    Takes (text ++ separator :: later) piece (rest ++ separator :: later) := by
  cases htakes with
  | blank hlayout => exact .blank hlayout
  | lexeme hstart hlongest hdenotes =>
    have hne := hlongest.contains.ne_nil
    rw [List.append_assoc]
    refine .lexeme ?_ (hlongest.append_separator hblank hcomment later) hdenotes
    rwa [List.head?_append_of_ne_nil _ hne, ← List.head?_append_of_ne_nil _ hne]
  | unrecognized hstart hnone hquote =>
    exact .unrecognized hstart (fun hbegins ↦ hnone (hbegins.of_append_separator hblank hquote))
      hquote
  | openString _ => exact absurd rfl hclosed

/-! ### All pieces -/

/-- No string is open at the end of the text. -/
def IsClosed (text : List Char) : Prop :=
  ∀ piece ∈ pieces text, piece.content ≠ .openString

/-- The last piece of the text is a comment, which a newline would end. -/
def EndsInComment (text : List Char) : Prop :=
  ∃ piece ∈ (pieces text).getLast?, LexemeClass.comment.Contains piece.lexeme

theorem isClosed_nil : IsClosed [] := by
  simp [IsClosed, pieces_nil]

theorem isClosed_iff_of_takes (htakes : Takes text piece rest) :
    IsClosed text ↔ piece.content ≠ .openString ∧ IsClosed rest := by
  rw [IsClosed, pieces_of_takes htakes, List.forall_mem_cons]
  rfl

theorem pieces_append_separator (hclosed : IsClosed text) (hblank : IsBlank separator)
    (hcomment : separator = '\n' ∨ ¬ EndsInComment text) (later : List Char) :
    pieces (text ++ separator :: later) =
      pieces text ++ ⟨.layout, [separator]⟩ :: pieces later := by
  induction text using takes_induction with
  | nil =>
    rw [List.nil_append, pieces_nil]
    exact pieces_of_takes (.blank hblank)
  | step text rest piece htakes ih =>
    have hpieces := pieces_of_takes htakes
    obtain ⟨hpiece, hclosed⟩ := (isClosed_iff_of_takes htakes).mp hclosed
    have hlast : separator = '\n' ∨ ¬ (LexemeClass.comment.Contains piece.lexeme ∧ rest = []) := by
      refine hcomment.imp_right ?_
      rintro hends ⟨hcontains, rfl⟩
      exact hends ⟨piece, by simp [hpieces, pieces_nil], hcontains⟩
    have hrest : separator = '\n' ∨ ¬ EndsInComment rest := by
      refine hcomment.imp_right (mt ?_)
      rintro ⟨last, hmem, hcontains⟩
      refine ⟨last, ?_, hcontains⟩
      rw [hpieces, List.getLast?_cons, Option.mem_def.mp hmem]
      rfl
    rw [pieces_of_takes (htakes.append_separator hpiece hblank hlast later), hpieces,
      ih hclosed hrest]
    rfl

theorem isClosed_append_separator_iff (hclosed : IsClosed text) (hblank : IsBlank separator)
    (hcomment : separator = '\n' ∨ ¬ EndsInComment text) (later : List Char) :
    IsClosed (text ++ separator :: later) ↔ IsClosed later := by
  rw [IsClosed, pieces_append_separator hclosed hblank hcomment, List.forall_mem_append,
    List.forall_mem_cons]
  exact ⟨fun hall ↦ hall.2.2, fun hlater ↦ ⟨hclosed, by simp, hlater⟩⟩

/-! ### Tokens -/

/-- The tokens of a text that begins on the given line, but for that of the end. -/
def tokensFrom (line : Nat) (text : List Char) : List Token :=
  (placed line (pieces text)).filterMap PlacedPiece.token?

theorem tokens_scanFrom (line : Nat) (text : List Char) :
    (scanFrom line text).tokens =
      tokensFrom line text ++ [⟨.endOfInput, "", lineAfter line text⟩] :=
  rfl

theorem map_piece_placed (line : Nat) (row : List Piece) :
    (placed line row).map PlacedPiece.piece = row := by
  induction row generalizing line with
  | nil => rfl
  | cons piece rest ih => rw [placed, List.map_cons, ih]

/-- Nothing is wrong with the lexemes of a text if no string is open at its end. -/
theorem errors_scanFrom_eq_nil_iff {line : Nat} :
    (scanFrom line text).errors = [] ↔ IsClosed text := by
  have hopen (placedPiece : PlacedPiece) :
      placedPiece.error? = none ↔ placedPiece.piece.content ≠ .openString := by
    unfold PlacedPiece.error?
    split <;> simp_all
  rw [IsClosed, ← map_piece_placed line (pieces text), List.forall_mem_map]
  simp only [scanFrom, List.filterMap_eq_nil_iff, hopen]

theorem isEnd_of_mem_tokensFrom {line : Nat} {token : Token} (hmem : token ∈ tokensFrom line text) :
    token.kind.isEnd = false := by
  obtain ⟨tiles, _, _, hkinds, htokens⟩ := @exists_tiling_of_isGapBefore [] text (.gap .nil) line
  have htiles : tokensFrom line text = tiles.map Tile.token := List.append_cancel_right htokens
  rw [htiles] at hmem
  obtain ⟨tile, htile, rfl⟩ := List.mem_map.mp hmem
  exact hkinds tile htile

theorem tokensFrom_nil (line : Nat) : tokensFrom line [] = [] := by
  rw [tokensFrom, pieces_nil]
  rfl

theorem tokensFrom_of_takes {kind : TokenKind} (htakes : Takes text ⟨.token kind, lexeme⟩ rest)
    (line : Nat) :
    tokensFrom line text =
      ⟨kind, String.ofList lexeme, lineAfter line lexeme⟩ ::
        tokensFrom (lineAfter line lexeme) rest := by
  rw [tokensFrom, pieces_of_takes htakes]
  rfl

/-- The tokens of a text that begins further down are those that it has anyway, further down. -/
theorem tokensFrom_add (line distance : Nat) (text : List Char) :
    tokensFrom (line + distance) text =
      (tokensFrom line text).map (Token.mapLine (· + distance)) := by
  unfold tokensFrom
  generalize pieces text = row
  induction row generalizing line with
  | nil => rfl
  | cons piece rest ih =>
    have hline : lineAfter (line + distance) piece.lexeme =
        lineAfter line piece.lexeme + distance :=
      Nat.add_right_comm line distance _
    rw [placed, placed, hline]
    obtain ⟨_ | kind | _, lexeme⟩ := piece
    · exact ih _
    · exact congrArg (List.cons _) (ih _)
    · exact ih _

theorem tokensFrom_append_separator (hclosed : IsClosed text) (hblank : IsBlank separator)
    (hcomment : separator = '\n' ∨ ¬ EndsInComment text) (line : Nat) (later : List Char) :
    tokensFrom line (text ++ separator :: later) =
      tokensFrom line text ++ tokensFrom (lineAfter line (text ++ [separator])) later := by
  rw [tokensFrom, pieces_append_separator hclosed hblank hcomment, placed_append, flatMap_pieces,
    List.filterMap_append, lineAfter_append]
  rfl

/-! ### Symbols -/

theorem Symbol.newline_not_mem (mark : Symbol) : '\n' ∉ mark.characters := by
  cases mark <;> decide

theorem Symbol.lineAfter_characters (mark : Symbol) (line : Nat) :
    lineAfter line mark.characters = line := by
  rw [lineAfter, List.count_eq_zero_of_not_mem mark.newline_not_mem, Nat.add_zero]

/-- A symbol is taken before any character with which it makes no longer lexeme. -/
theorem takes_symbol {mark : Symbol}
    (hrest : ∀ next ∈ rest.head?, (next = '=' → mark.withEqual? = none) ∧
      (next = '/' → mark ≠ .slash)) :
    Takes (mark.characters ++ rest) ⟨.token (.symbol mark), mark.characters⟩ rest := by
  obtain ⟨head, tail, htext⟩ := List.exists_cons_of_ne_nil
    (List.append_ne_nil_of_left_ne_nil mark.characters_ne_nil rest)
  rw [htext, takes_iff_cut]
  exact cut_symbol hrest htext

theorem takes_symbol_of_withEqual?_eq_none {mark : Symbol} (hlonger : mark.withEqual? = none)
    (hslash : mark ≠ .slash) (rest : List Char) :
    Takes (mark.characters ++ rest) ⟨.token (.symbol mark), mark.characters⟩ rest :=
  takes_symbol fun _ _ ↦ ⟨fun _ ↦ hlonger, fun _ ↦ hslash⟩

end Lox
