import Lox.Proofs.Lexing.Classes

/-!
# The first piece is the longest lexeme

`Piece.cut` looks at one or two characters to tell what begins, and at the next one to tell where it
ends. That is the step which takes the longest lexeme, and no other (`takes_iff_cut`). What a cut
does is therefore known from the classes of lexemes alone: `takes_cut` gives the four ways in which
a first piece comes about, and `takes_induction` goes through a text piece by piece.
-/

set_option autoImplicit false
set_option relaxedAutoImplicit false

namespace Lox

/-! ### Characters -/

section Characters

variable {character : Char}

theorem isWhitespace_iff_isBlank : character.isWhitespace = true ↔ IsBlank character := by
  simp [Char.isWhitespace, IsBlank, or_assoc]

theorem isDigit_iff_isDecimalDigit : character.isDigit = true ↔ IsDecimalDigit character := by
  simp [Char.isDigit, IsDecimalDigit, Char.le_def]

theorem isWordStart_iff_isLetter :
    Piece.isWordStart character = true ↔ IsLetter character := by
  simp [Piece.isWordStart, Char.isAlpha, Char.isUpper, Char.isLower, IsLetter, Char.le_def,
    or_assoc]

theorem isWordPart_iff :
    Piece.isWordPart character = true ↔ IsLetter character ∨ IsDecimalDigit character := by
  rw [← isWordStart_iff_isLetter, ← isDigit_iff_isDecimalDigit]
  simp [Piece.isWordPart, Piece.isWordStart, Char.isAlphanum, or_right_comm]

theorem IsBlank.toNat_le (hblank : IsBlank character) : character.toNat ≤ 32 := by
  rcases hblank with rfl | rfl | rfl | rfl <;> decide

theorem IsDecimalDigit.toNat_mem_Icc (hdigit : IsDecimalDigit character) :
    character.toNat ∈ Set.Icc 48 57 :=
  ⟨UInt32.le_iff_toNat_le.mp hdigit.1, UInt32.le_iff_toNat_le.mp hdigit.2⟩

theorem IsLetter.le_toNat (hletter : IsLetter character) : 65 ≤ character.toNat := by
  rcases hletter with hupper | hlower | rfl
  · exact UInt32.le_iff_toNat_le.mp hupper.1
  · exact Nat.le_trans (by decide) (UInt32.le_iff_toNat_le.mp hlower.1)
  · decide

theorem IsDecimalDigit.not_isBlank (hdigit : IsDecimalDigit character) : ¬ IsBlank character := by
  intro hblank
  have hle := hblank.toNat_le
  have hge := hdigit.toNat_mem_Icc.1
  omega

theorem IsLetter.not_isBlank (hletter : IsLetter character) : ¬ IsBlank character := by
  intro hblank
  have hle := hblank.toNat_le
  have hge := hletter.le_toNat
  omega

theorem IsLetter.not_isDecimalDigit (hletter : IsLetter character) :
    ¬ IsDecimalDigit character := by
  intro hdigit
  have hle := hdigit.toNat_mem_Icc.2
  have hge := hletter.le_toNat
  omega

end Characters

/-- The lexemes that may hold a blank are strings and, but for newlines, comments. -/
theorem LexemeClass.Contains.string_or_comment_of_isBlank_mem {kind : LexemeClass}
    {lexeme : List Char} (hcontains : kind.Contains lexeme) {blank : Char} (hblank : IsBlank blank)
    (hmem : blank ∈ lexeme) : kind = .string ∨ kind = .comment ∧ blank ≠ '\n' := by
  have hdigits {digits : List Char} (hdigits : IsDigits digits) : blank ∉ digits :=
    fun hmem ↦ (hdigits.isDecimalDigit blank hmem).not_isBlank hblank
  cases hcontains with
  | symbol mark =>
    have hmarks : ∀ character ∈ mark.characters, ¬ IsBlank character := by
      cases mark <;> simp [Symbol.characters, IsBlank]
    exact absurd hblank (hmarks blank hmem)
  | word hhead htail =>
    rcases List.mem_cons.mp hmem with rfl | hmem
    · exact absurd hblank hhead.not_isBlank
    · exact absurd hblank
        ((htail blank hmem).elim IsLetter.not_isBlank IsDecimalDigit.not_isBlank)
  | whole hwhole => exact absurd hmem (hdigits hwhole)
  | fraction hwhole hfraction =>
    rcases List.mem_append.mp hmem with hmem | hmem
    · exact absurd hmem (hdigits hwhole)
    · rcases List.mem_cons.mp hmem with rfl | hmem
      · exact absurd hblank (by decide)
      · exact absurd hmem (hdigits hfraction)
  | string _ => exact .inl rfl
  | comment hcharacters =>
    refine .inr ⟨rfl, ?_⟩
    rintro rfl
    exact hcharacters (by simpa using hmem)

/-! ### What the first character decides -/

namespace Piece

variable {head : Char} {tail : List Char}

theorem cut_of_isBlank (hblank : IsBlank head) (tail : List Char) :
    cut head tail = (⟨.layout, [head]⟩, tail) :=
  if_pos (isWhitespace_iff_isBlank.mpr hblank)

theorem cut_of_isDecimalDigit (hdigit : IsDecimalDigit head) (tail : List Char) :
    cut head tail = cutNumeral (head :: tail) := by
  have hblank : ¬ head.isWhitespace = true :=
    mt isWhitespace_iff_isBlank.mp hdigit.not_isBlank
  have hquote : head ≠ '"' := by
    rintro rfl
    exact absurd hdigit.toNat_mem_Icc.1 (by decide)
  rw [cut, if_neg hblank, if_neg hquote, if_pos (isDigit_iff_isDecimalDigit.mpr hdigit)]

theorem cut_of_isLetter (hletter : IsLetter head) (tail : List Char) :
    cut head tail = cutWord (head :: tail) := by
  have hblank : ¬ head.isWhitespace = true :=
    mt isWhitespace_iff_isBlank.mp hletter.not_isBlank
  have hquote : head ≠ '"' := by
    rintro rfl
    exact absurd hletter.le_toNat (by decide)
  have hdigit : ¬ head.isDigit = true :=
    mt isDigit_iff_isDecimalDigit.mp hletter.not_isDecimalDigit
  rw [cut, if_neg hblank, if_neg hquote, if_neg hdigit,
    if_pos (isWordStart_iff_isLetter.mpr hletter)]

/-- No other piece begins with a symbol, unless it is a comment. -/
theorem cut_of_ofChar? {symbol : Symbol} (hsymbol : Symbol.ofChar? head = some symbol)
    (hcomment : ¬ (head = '/' ∧ tail.head? = some '/')) :
    cut head tail = cutSymbol symbol tail := by
  have hother : ¬ head.isWhitespace = true ∧ head ≠ '"' ∧ ¬ head.isDigit = true ∧
      ¬ isWordStart head = true := by
    unfold Symbol.ofChar? at hsymbol
    split at hsymbol
    case h_16 => cases hsymbol
    all_goals decide
  obtain ⟨hblank, hquote, hdigit, hletter⟩ := hother
  rw [cut, if_neg hblank, if_neg hquote, if_neg hdigit, if_neg hletter, if_neg hcomment, hsymbol]

theorem cut_of_ofChar?_eq_none (hblank : ¬ IsBlank head) (hquote : head ≠ '"')
    (hdigit : ¬ IsDecimalDigit head) (hletter : ¬ IsLetter head)
    (hsymbol : Symbol.ofChar? head = none) :
    cut head tail = (⟨.token .unrecognized, [head]⟩, tail) := by
  have hcomment : ¬ (head = '/' ∧ tail.head? = some '/') := by
    rintro ⟨rfl, _⟩
    cases hsymbol
  rw [cut, if_neg (mt isWhitespace_iff_isBlank.mp hblank), if_neg hquote,
    if_neg (mt isDigit_iff_isDecimalDigit.mp hdigit),
    if_neg (mt isWordStart_iff_isLetter.mp hletter), if_neg hcomment, hsymbol]

end Piece

/-! ### Where a lexeme ends -/

section Boundary

variable {α : Type} {property : α → Bool} {start rest : List α}

theorem takeWhile_append_of_head? (hstart : ∀ entry ∈ start, property entry = true)
    (hrest : ∀ entry ∈ rest.head?, property entry = false) :
    (start ++ rest).takeWhile property = start := by
  have hnil : rest.takeWhile property = [] := by
    cases rest with
    | nil => rfl
    | cons entry later => simp [hrest entry rfl]
  rw [List.takeWhile_append_of_pos hstart, hnil, List.append_nil]

theorem dropWhile_append_of_head? (hstart : ∀ entry ∈ start, property entry = true)
    (hrest : ∀ entry ∈ rest.head?, property entry = false) :
    (start ++ rest).dropWhile property = rest := by
  rw [List.dropWhile_append_of_pos hstart]
  cases rest with
  | nil => rfl
  | cons entry later => simp [hrest entry rfl]

end Boundary

theorem IsLongestLexeme.not_isLexeme_concat {kind : LexemeClass} {lexeme rest : List Char}
    (hlongest : IsLongestLexeme kind lexeme rest) {next : Char} (hnext : next ∈ rest.head?) :
    ¬ IsLexeme (lexeme ++ [next]) := by
  obtain ⟨later, rfl⟩ := List.head?_eq_some_iff.mp hnext
  exact @IsLongestLexeme.not_isLexeme_append kind lexeme [next] later hlongest (by simp)

/-! ### The first piece, class by class -/

namespace Piece

variable {lexeme rest : List Char} {content : Content}

theorem cutString_append_quote {characters : List Char} (hcharacters : '"' ∉ characters)
    (rest : List Char) :
    cutString (characters ++ '"' :: rest) =
      (⟨.token (.string (String.ofList characters)), '"' :: (characters ++ ['"'])⟩, rest) := by
  have hpart : ∀ character ∈ characters, isStringPart character = true := by
    intro character hmem
    simpa [isStringPart] using ne_of_mem_of_not_mem hmem hcharacters
  have hquote : ∀ character ∈ ('"' :: rest).head?, isStringPart character = false := by
    intro character hmem
    cases hmem
    rfl
  rw [cutString, takeWhile_append_of_head? hpart hquote, dropWhile_append_of_head? hpart hquote]
  rfl

theorem cutString_of_not_mem {characters : List Char} (hcharacters : '"' ∉ characters) :
    cutString characters = (⟨.openString, '"' :: characters⟩, []) := by
  have hpart : ∀ character ∈ characters, isStringPart character = true := by
    intro character hmem
    simpa [isStringPart] using ne_of_mem_of_not_mem hmem hcharacters
  rw [cutString, List.takeWhile_eq_self_iff.mpr hpart, List.dropWhile_eq_nil_iff.mpr hpart]

theorem cutNumeral_of_leadingFraction {whole fraction rest : List Char}
    (hwhole : ∀ character ∈ whole, character.isDigit = true)
    (hboundary : ∀ character ∈ (fraction ++ rest).head?, character.isDigit = false)
    (hfraction : leadingFraction (fraction ++ rest) = fraction) :
    cutNumeral (whole ++ (fraction ++ rest)) =
      (⟨.token (.number (Number.ofNumeral (whole ++ fraction))), whole ++ fraction⟩, rest) := by
  rw [cutNumeral, takeWhile_append_of_head? hwhole hboundary,
    dropWhile_append_of_head? hwhole hboundary, hfraction, List.drop_left]

end Piece

/-- A symbol is a single character, or one that an equals sign makes longer. -/
theorem Symbol.exists_ofChar? (mark : Symbol) :
    ∃ head symbol, ofChar? head = some symbol ∧
      (mark = symbol ∧ mark.characters = [head] ∨
        symbol.withEqual? = some mark ∧ mark.characters = [head, '=']) := by
  cases mark with
  | bangEqual => exact ⟨'!', bang, rfl, .inr ⟨rfl, rfl⟩⟩
  | equalEqual => exact ⟨'=', equal, rfl, .inr ⟨rfl, rfl⟩⟩
  | greaterEqual => exact ⟨'>', greater, rfl, .inr ⟨rfl, rfl⟩⟩
  | lessEqual => exact ⟨'<', less, rfl, .inr ⟨rfl, rfl⟩⟩
  | _ => refine ⟨_, _, ?_, .inl ⟨rfl, rfl⟩⟩; rfl

section Longest

variable {lexeme rest : List Char}

theorem cutWord_of_longest (hlongest : IsLongestLexeme .word lexeme rest) :
    Piece.cutWord (lexeme ++ rest) =
      (⟨.token (.ofWord (String.ofList lexeme)), lexeme⟩, rest) := by
  obtain ⟨head, tail, rfl, hhead, htail⟩ : ∃ head tail, lexeme = head :: tail ∧ IsLetter head ∧
      ∀ character ∈ tail, IsLetter character ∨ IsDecimalDigit character := by
    obtain ⟨hcontains, _⟩ := hlongest
    cases hcontains with
    | word hhead htail => exact ⟨_, _, rfl, hhead, htail⟩
  have hpart : ∀ character ∈ head :: tail, Piece.isWordPart character = true := by
    intro character hmem
    rcases List.mem_cons.mp hmem with rfl | hmem
    · exact isWordPart_iff.mpr (.inl hhead)
    · exact isWordPart_iff.mpr (htail character hmem)
  have hboundary : ∀ character ∈ rest.head?, Piece.isWordPart character = false := by
    intro character hmem
    by_contra hword
    rw [Bool.not_eq_false, isWordPart_iff] at hword
    refine hlongest.not_isLexeme_concat hmem ⟨.word, .word hhead ?_⟩
    intro other hother
    rcases List.mem_append.mp hother with hother | hother
    · exact htail other hother
    · rwa [List.mem_singleton.mp hother]
  rw [Piece.cutWord, takeWhile_append_of_head? hpart hboundary,
    dropWhile_append_of_head? hpart hboundary]

theorem IsDigits.append {first second : List Char} (hfirst : IsDigits first)
    (hsecond : ∀ character ∈ second, IsDecimalDigit character) : IsDigits (first ++ second) := by
  refine ⟨List.append_ne_nil_of_left_ne_nil hfirst.ne_nil second, ?_⟩
  intro character hmem
  rcases List.mem_append.mp hmem with hmem | hmem
  · exact hfirst.isDecimalDigit character hmem
  · exact hsecond character hmem

theorem IsDigits.isDigit {digits : List Char} (hdigits : IsDigits digits) :
    ∀ character ∈ digits, character.isDigit = true :=
  fun character hmem ↦ isDigit_iff_isDecimalDigit.mpr (hdigits.isDecimalDigit character hmem)

theorem isDigits_singleton {digit : Char} (hdigit : IsDecimalDigit digit) : IsDigits [digit] :=
  ⟨by simp, by simpa using hdigit⟩

theorem leadingFraction_point {fraction : List Char} (hfraction : IsDigits fraction)
    (hboundary : ∀ character ∈ rest.head?, character.isDigit = false) :
    Piece.leadingFraction ('.' :: (fraction ++ rest)) = '.' :: fraction := by
  obtain ⟨digit, digits, rfl⟩ := List.exists_cons_of_ne_nil hfraction.ne_nil
  simp only [Piece.leadingFraction, takeWhile_append_of_head? hfraction.isDigit hboundary]

/-- Digits that go on with no digit and with no point before a digit have no fraction. -/
theorem leadingFraction_eq_nil {digits : List Char} (hdigits : IsDigits digits)
    (hlongest : IsLongestLexeme .numeral digits rest) : Piece.leadingFraction rest = [] := by
  unfold Piece.leadingFraction
  split
  case h_1 text =>
    cases text with
    | nil => rfl
    | cons digit later =>
      have hdigit : ¬ digit.isDigit = true := by
        intro hdigit
        have hfraction := isDigits_singleton (isDigit_iff_isDecimalDigit.mp hdigit)
        exact @IsLongestLexeme.not_isLexeme_append _ digits ['.', digit] later hlongest
          (by simp) ⟨.numeral, .fraction hdigits hfraction⟩
      simp [hdigit]
  case h_2 => rfl

theorem cutNumeral_of_longest (hlongest : IsLongestLexeme .numeral lexeme rest) :
    Piece.cutNumeral (lexeme ++ rest) =
      (⟨.token (.number (Number.ofNumeral lexeme)), lexeme⟩, rest) := by
  have hconcat {digit : Char} (hmem : digit ∈ rest.head?)
      (hlonger : IsDecimalDigit digit → LexemeClass.numeral.Contains (lexeme ++ [digit])) :
      digit.isDigit = false := by
    by_contra hdigit
    rw [Bool.not_eq_false, isDigit_iff_isDecimalDigit] at hdigit
    exact hlongest.not_isLexeme_concat hmem ⟨.numeral, hlonger hdigit⟩
  obtain ⟨hcontains, _⟩ := id hlongest
  cases hcontains with
  | whole hdigits =>
    have hboundary : ∀ digit ∈ rest.head?, digit.isDigit = false := fun digit hmem ↦
      hconcat hmem fun hdigit ↦ .whole (hdigits.append (by simpa using hdigit))
    simpa using @Piece.cutNumeral_of_leadingFraction lexeme [] rest hdigits.isDigit hboundary
      (leadingFraction_eq_nil hdigits hlongest)
  | @fraction whole fraction hwhole hfraction =>
    have hboundary : ∀ digit ∈ rest.head?, digit.isDigit = false := by
      intro digit hmem
      refine hconcat hmem fun hdigit ↦ ?_
      rw [List.append_assoc, List.cons_append]
      exact .fraction hwhole (hfraction.append (by simpa using hdigit))
    have hpoint : ∀ character ∈ ('.' :: fraction ++ rest).head?, character.isDigit = false := by
      intro character hmem
      cases hmem
      rfl
    rw [List.append_assoc]
    exact Piece.cutNumeral_of_leadingFraction hwhole.isDigit hpoint
      (leadingFraction_point hfraction hboundary)

/-- A comment ends before a newline or with the text. -/
theorem IsLongestLexeme.newline_of_comment (hlongest : IsLongestLexeme .comment lexeme rest) :
    ∀ next ∈ rest.head?, next = '\n' := by
  intro next hnext
  by_contra hne
  refine hlongest.not_isLexeme_concat hnext ⟨.comment, ?_⟩
  obtain ⟨hcontains, _⟩ := hlongest
  cases hcontains with
  | @comment characters hcharacters =>
    have hmore : '\n' ∉ characters ++ [next] := by simpa [hcharacters] using Ne.symm hne
    exact .comment hmore

theorem cutComment_of_longest (hlongest : IsLongestLexeme .comment lexeme rest) :
    Piece.cutComment (lexeme ++ rest) = (⟨.layout, lexeme⟩, rest) := by
  have hpart : ∀ character ∈ lexeme, Piece.isCommentPart character = true := by
    obtain ⟨hcontains, _⟩ := hlongest
    cases hcontains with
    | @comment characters hcharacters =>
      intro character hmem
      have hnewline : '\n' ∉ '/' :: '/' :: characters := by simpa using hcharacters
      simpa [Piece.isCommentPart] using ne_of_mem_of_not_mem hmem hnewline
  have hboundary : ∀ next ∈ rest.head?, Piece.isCommentPart next = false := by
    intro next hnext
    rw [hlongest.newline_of_comment next hnext]
    rfl
  rw [Piece.cutComment, takeWhile_append_of_head? hpart hboundary,
    dropWhile_append_of_head? hpart hboundary]

/-- A symbol is cut off before any character with which it makes no longer lexeme. -/
theorem cut_symbol {mark : Symbol} {head : Char} {tail : List Char}
    (hrest : ∀ next ∈ rest.head?, (next = '=' → mark.withEqual? = none) ∧
      (next = '/' → mark ≠ .slash))
    (htext : mark.characters ++ rest = head :: tail) :
    Piece.cut head tail = (⟨.token (.symbol mark), mark.characters⟩, rest) := by
  obtain ⟨first, symbol, hsymbol, ⟨rfl, hcharacters⟩ | ⟨hlonger, hcharacters⟩⟩ :=
    mark.exists_ofChar?
  · rw [hcharacters, List.cons_append, List.nil_append] at htext
    cases htext
    have hcomment : ¬ (head = '/' ∧ rest.head? = some '/') := by
      rintro ⟨rfl, hslash⟩
      cases hsymbol
      exact (hrest '/' hslash).2 rfl rfl
    rw [Piece.cut_of_ofChar? hsymbol hcomment]
    unfold Piece.cutSymbol
    split
    case h_1 longer later hlonger =>
      rw [(hrest '=' rfl).1 rfl] at hlonger
      cases hlonger
    case h_2 => rfl
  · rw [hcharacters, List.cons_append, List.cons_append, List.nil_append] at htext
    cases htext
    have hcomment : ¬ (head = '/' ∧ ('=' :: rest).head? = some '/') := by simp
    rw [Piece.cut_of_ofChar? hsymbol hcomment]
    simp [Piece.cutSymbol, hlonger]

theorem cut_of_longest_symbol {mark : Symbol} {head : Char} {tail : List Char}
    (hlongest : IsLongestLexeme .symbol mark.characters rest)
    (htext : mark.characters ++ rest = head :: tail) :
    Piece.cut head tail = (⟨.token (.symbol mark), mark.characters⟩, rest) := by
  refine cut_symbol (fun next hnext ↦ ⟨?_, ?_⟩) htext
  · rintro rfl
    rw [Option.eq_none_iff_forall_ne_some]
    intro longer hlonger
    have hcontains := LexemeClass.Contains.symbol longer
    rw [Symbol.characters_of_withEqual? hlonger] at hcontains
    exact hlongest.not_isLexeme_concat hnext ⟨.symbol, hcontains⟩
  · rintro rfl rfl
    exact hlongest.not_isLexeme_concat hnext ⟨.comment, .comment (by simp)⟩

end Longest

/-! ### The step that a cut is -/

theorem TokenKind.ofWord_of_denotes {lexeme : List Char} {content : Content}
    (hdenotes : LexemeClass.word.Denotes lexeme content) :
    content = .token (.ofWord (String.ofList lexeme)) := by
  cases hdenotes with
  | keyword keyword => cases keyword <;> rfl
  | name hname =>
    have hnone : Keyword.ofWord? (String.ofList lexeme) = none := by
      rw [Option.eq_none_iff_forall_ne_some]
      intro keyword hkeyword
      refine hname keyword ?_
      rw [← keyword.toList_text, Keyword.text_of_ofWord? hkeyword, String.toList_ofList]
    rw [ofWord, hnone]

theorem LexemeClass.Contains.isDecimalDigit_head {lexeme : List Char}
    (hcontains : numeral.Contains lexeme) :
    ∀ head ∈ lexeme.head?, IsDecimalDigit head := by
  intro head hhead
  cases hcontains with
  | whole hdigits => exact hdigits.isDecimalDigit head (List.mem_of_mem_head? hhead)
  | fraction hwhole _ =>
    rw [List.head?_append_of_ne_nil _ hwhole.ne_nil] at hhead
    exact hwhole.isDecimalDigit head (List.mem_of_mem_head? hhead)

/-- A longest lexeme is what a cut takes. -/
theorem cut_of_longest {kind : LexemeClass} {lexeme rest : List Char} {content : Content}
    (hlongest : IsLongestLexeme kind lexeme rest) (hdenotes : kind.Denotes lexeme content)
    {head : Char} {tail : List Char} (htext : lexeme ++ rest = head :: tail) :
    Piece.cut head tail = (⟨content, lexeme⟩, rest) := by
  obtain ⟨hcontains, _⟩ := id hlongest
  cases kind with
  | symbol =>
    cases hdenotes
    exact cut_of_longest_symbol hlongest htext
  | word =>
    have hletter : IsLetter head := by
      cases hcontains with
      | word hletter _ =>
        cases htext
        exact hletter
    rw [Piece.cut_of_isLetter hletter, ← htext, cutWord_of_longest hlongest,
      TokenKind.ofWord_of_denotes hdenotes]
  | numeral =>
    have hhead : head ∈ lexeme.head? := by
      rw [← List.head?_append_of_ne_nil _ hcontains.ne_nil, htext]
      rfl
    cases hdenotes
    rw [Piece.cut_of_isDecimalDigit (hcontains.isDecimalDigit_head head hhead), ← htext]
    exact cutNumeral_of_longest hlongest
  | string =>
    cases hdenotes with
    | string characters =>
      rw [List.cons_append, List.append_assoc] at htext
      cases htext
      exact Piece.cutString_append_quote hcontains.quote_not_mem rest
  | comment =>
    obtain ⟨characters, rfl⟩ : ∃ characters, lexeme = '/' :: '/' :: characters := by
      cases hcontains
      exact ⟨_, rfl⟩
    cases hdenotes
    cases htext
    exact cutComment_of_longest hlongest

theorem cut_of_takes {head : Char} {tail rest : List Char} {piece : Piece}
    (htakes : Takes (head :: tail) piece rest) : Piece.cut head tail = (piece, rest) := by
  generalize htext : head :: tail = text at htakes
  cases htakes with
  | blank hblank =>
    cases htext
    exact Piece.cut_of_isBlank hblank tail
  | lexeme _ hlongest hdenotes => exact cut_of_longest hlongest hdenotes htext.symm
  | unrecognized hstart hnone hquote =>
    cases htext
    have hlexeme {start : List Char} (hleads : start <+: head :: tail) : ¬ IsLexeme start :=
      fun hlexeme ↦ hnone ⟨start, hlexeme, hleads⟩
    have hsingle : [head] <+: head :: tail := ⟨tail, rfl⟩
    refine Piece.cut_of_ofChar?_eq_none hstart hquote ?_ ?_ ?_
    · intro hdigit
      exact hlexeme hsingle ⟨.numeral, .whole (isDigits_singleton hdigit)⟩
    · intro hletter
      exact hlexeme hsingle ⟨.word, .word hletter (by simp)⟩
    · rw [Option.eq_none_iff_forall_ne_some]
      intro symbol hsymbol
      refine hlexeme hsingle ⟨.symbol, ?_⟩
      rw [← Symbol.characters_of_ofChar? hsymbol]
      exact .symbol symbol
  | openString hnone =>
    cases htext
    exact Piece.cutString_of_not_mem (not_mem_of_not_beginsWithLexeme hnone)

/-- A cut is the step that takes the longest lexeme. -/
theorem takes_iff_cut {head : Char} {tail rest : List Char} {piece : Piece} :
    Takes (head :: tail) piece rest ↔ Piece.cut head tail = (piece, rest) := by
  constructor
  · exact cut_of_takes
  · intro hcut
    obtain ⟨other, left, htakes⟩ := exists_takes head tail
    have hother := cut_of_takes htakes
    rw [hcut] at hother
    cases hother
    exact htakes

theorem takes_cut (head : Char) (tail : List Char) :
    Takes (head :: tail) (Piece.cut head tail).1 (Piece.cut head tail).2 :=
  takes_iff_cut.mpr rfl

namespace Takes

variable {text rest : List Char} {piece : Piece}

theorem append_eq (htakes : Takes text piece rest) : piece.lexeme ++ rest = text := by
  cases htakes with
  | openString _ => exact List.append_nil _
  | _ => rfl

theorem ne_nil (htakes : Takes text piece rest) : text ≠ [] := by
  cases htakes with
  | lexeme _ hlongest _ =>
    exact List.append_ne_nil_of_left_ne_nil hlongest.contains.ne_nil _
  | _ => simp

/-- A string that is never closed begins with the last quote of the text and goes on to its end. -/
theorem exists_of_openString {lexeme : List Char}
    (htakes : Takes text ⟨.openString, lexeme⟩ rest) :
    ∃ characters, text = '"' :: characters ∧ lexeme = '"' :: characters ∧ rest = [] ∧
      '"' ∉ characters := by
  cases htakes with
  | lexeme _ _ hdenotes => cases hdenotes
  | openString hnone => exact ⟨_, rfl, rfl, rfl, not_mem_of_not_beginsWithLexeme hnone⟩

theorem eq_nil_of_openString {lexeme : List Char}
    (htakes : Takes text ⟨.openString, lexeme⟩ rest) : rest = [] := by
  obtain ⟨_, _, _, hrest, _⟩ := htakes.exists_of_openString
  exact hrest

end Takes

/-! ### All pieces -/

theorem pieces_of_takes {text rest : List Char} {piece : Piece} (htakes : Takes text piece rest) :
    pieces text = piece :: pieces rest := by
  obtain ⟨head, tail, rfl⟩ := List.exists_cons_of_ne_nil htakes.ne_nil
  rw [pieces_cons, takes_iff_cut.mp htakes]

/-- What holds of the empty text and carries over from what a step leaves to what it was made on
holds of every text. -/
@[elab_as_elim]
theorem takes_induction {motive : List Char → Prop} (nil : motive [])
    (step : ∀ (text rest : List Char) (piece : Piece), Takes text piece rest → motive rest →
      motive text)
    (text : List Char) : motive text := by
  fun_induction pieces text with
  | case1 => exact nil
  | case2 head tail ih => exact step _ _ _ (takes_cut head tail) ih

end Lox
