import Lox.Number.Patterns
import Lox.Proofs.Results

/-!
# The text of a tree determines the tree

The text of a tree is not meant to be read again: strings are quoted and nothing inside is escaped,
a group is written as if it were an operator, and minus has one operand or two. It can be read all
the same if the tree comes from a source text. Such a tree is legible (`legible_of_parse_scan`):
strings have no quotes inside, numbers have no signs, and operators are symbols. A legible tree and
the end of its text are seen from the left, whatever follows in the text of another tree
(`Expr.Legible.isReadable`). So trees of source texts that have the same text are the same but for
lines (`parse_scan_determined_by_text`).
-/

set_option autoImplicit false
set_option relaxedAutoImplicit false

namespace Lox

/-! ### Literals of source texts -/

/-- A value that the token of a source text may denote: it is written as one lexeme, or it is the
infinite number, whose text is a name. -/
def Value.IsLegible (value : Value) : Prop :=
  value.IsWritable ∨ value = .number Number.infinite

theorem isLegible_ofNumeral (numeral : List Char) :
    (Value.number (Number.ofNumeral numeral)).IsLegible := by
  obtain ⟨pattern, hle, hnumber⟩ := Number.exists_ofNumeral_eq numeral
  rw [hnumber]
  rcases Nat.lt_or_eq_of_le hle with hlt | rfl
  · refine .inl ⟨Number.isSigned_ofPattern hle, ?_⟩
    rwa [Number.magnitude_ofPattern hle]
  · exact .inr (congrArg Value.number Number.infinite_eq.symm)

theorem Takes.isLegible {kind : TokenKind} {value : Value} {text lexeme rest : List Char}
    (htakes : Takes text ⟨.token kind, lexeme⟩ rest) (hliteral : kind.IsLiteral value) :
    value.IsLegible := by
  cases htakes with
  | lexeme _ hlongest hdenotes =>
    cases hdenotes with
    | symbol _ => cases hliteral
    | keyword word =>
      cases hliteral <;> exact .inl trivial
    | name _ => cases hliteral
    | numeral _ =>
      cases hliteral
      exact isLegible_ofNumeral lexeme
    | string characters =>
      cases hliteral
      refine .inl ?_
      rw [Value.IsWritable, String.toList_ofList]
      exact hlongest.contains.quote_not_mem
  | unrecognized _ _ _ => cases hliteral

theorem Takes.lexeme_eq_characters {mark : Symbol} {text lexeme rest : List Char}
    (htakes : Takes text ⟨.token (.symbol mark), lexeme⟩ rest) : lexeme = mark.characters := by
  cases htakes with
  | lexeme _ _ hdenotes =>
    cases hdenotes
    rfl

/-! ### Legible trees -/

namespace Expr

/-- A tree with literals that source texts have and with operators that are written with symbols,
whatever these mean. -/
inductive Legible : Expr → Prop
  | literal {value : Value} (hvalue : value.IsLegible) : Legible (literal value)
  | group {inner : Expr} (hinner : Legible inner) : Legible (group inner)
  | unary (mark : Symbol) (line : Nat) {operand : Expr} (hoperand : Legible operand) :
      Legible (unary (mark.tokenOn line) operand)
  | binary (mark : Symbol) (line : Nat) {left right : Expr} (hleft : Legible left)
      (hright : Legible right) : Legible (binary (mark.tokenOn line) left right)

end Expr

/-- The symbols of a scan are written as usual. -/
theorem eq_tokenOn_of_mem_tokens {source : String} {token : Token} {mark : Symbol}
    (hmem : token ∈ (scan source).tokens) (hkind : token.kind = .symbol mark) :
    token = mark.tokenOn token.line := by
  rcases exists_takes_of_mem_tokens hmem with rfl | ⟨_, _, _, _, htakes, hlexeme, _⟩
  · cases hkind
  · obtain ⟨kind, lexeme, line⟩ := token
    cases hkind
    rw [htakes.lexeme_eq_characters] at hlexeme
    cases hlexeme
    rfl

theorem isLegible_of_mem_tokens {source : String} {token : Token} {value : Value}
    (hmem : token ∈ (scan source).tokens) (hliteral : token.kind.IsLiteral value) :
    value.IsLegible := by
  rcases exists_takes_of_mem_tokens hmem with rfl | ⟨_, _, _, _, htakes, _, _⟩
  · cases hliteral
  · exact htakes.isLegible hliteral

/-- A stratified tree that is spelled with tokens of a scan is legible. -/
theorem Expr.Spells.legible {source : String} {expression : Expr} {spelling : List Token}
    (hspells : expression.Spells spelling) (hstratified : expression.Stratified)
    (hsubset : spelling ⊆ (scan source).tokens) : expression.Legible := by
  induction hspells with
  | literal hliteral =>
    exact .literal (isLegible_of_mem_tokens (hsubset (List.mem_singleton_self _)) hliteral)
  | group _ _ _ ih =>
    cases hstratified with
    | group hinner => exact .group (ih hinner fun _ hmem ↦ hsubset (by simp [hmem]))
  | @unary token operand tokens _ ih =>
    cases hstratified with
    | unary hunary _ hoperand =>
      obtain ⟨mark, hkind⟩ := hunary.exists_symbol
      rw [eq_tokenOn_of_mem_tokens (hsubset List.mem_cons_self) hkind]
      exact .unary mark token.line (ih hoperand fun _ hmem ↦ hsubset (by simp [hmem]))
  | @binary token left right leftTokens rightTokens _ _ ihleft ihright =>
    cases hstratified with
    | binary hlevel _ _ hleft hright =>
      obtain ⟨mark, hkind⟩ := TokenKind.exists_symbol_of_binaryLevel? hlevel
      rw [eq_tokenOn_of_mem_tokens (hsubset (by simp)) hkind]
      exact .binary mark token.line (ihleft hleft fun _ hmem ↦ hsubset (by simp [hmem]))
        (ihright hright fun _ hmem ↦ hsubset (by simp [hmem]))

theorem legible_of_parse_scan {source : String} {expression : Expr}
    (hparse : (Parser.ofTokens (scan source).tokens).parse.1 = .ok expression) :
    expression.Legible := by
  obtain ⟨_, hsubset, hstratified, hspells⟩ := exists_spelling_subset_of_parse_scan hparse
  exact hspells.legible hstratified hsubset

/-! ### Where a part of a text ends -/

section Ends

variable {α : Type} {first second rest other : List α}

/-- A text is cut where a property of its characters ends. -/
theorem append_inj_of_head? {property : α → Bool}
    (hfirst : ∀ entry ∈ first, property entry = true)
    (hsecond : ∀ entry ∈ second, property entry = true)
    (hrest : ∀ entry ∈ rest.head?, property entry = false)
    (hother : ∀ entry ∈ other.head?, property entry = false)
    (happend : first ++ rest = second ++ other) : first = second ∧ rest = other := by
  constructor
  · rw [← takeWhile_append_of_head? hfirst hrest, happend,
      takeWhile_append_of_head? hsecond hother]
  · rw [← dropWhile_append_of_head? hfirst hrest, happend,
      dropWhile_append_of_head? hsecond hother]

/-- A text is cut at the first of its delimiters. -/
theorem append_cons_inj_of_not_mem [DecidableEq α] {delimiter : α} (hfirst : delimiter ∉ first)
    (hsecond : delimiter ∉ second)
    (happend : first ++ delimiter :: rest = second ++ delimiter :: other) :
    first = second ∧ rest = other := by
  have hinside (part : List α) (hnone : delimiter ∉ part) :
      ∀ entry ∈ part, decide (entry ≠ delimiter) = true :=
    fun entry hmem ↦ decide_eq_true (ne_of_mem_of_not_mem hmem hnone)
  have hhead (later : List α) :
      ∀ entry ∈ (delimiter :: later).head?, decide (entry ≠ delimiter) = false := by
    simp
  obtain ⟨hsame, hrest⟩ := append_inj_of_head? (hinside first hfirst) (hinside second hsecond)
    (hhead rest) (hhead other) happend
  exact ⟨hsame, (List.cons.inj hrest).2⟩

end Ends

/-- What may follow a tree inside the text of another: a space before the next operand or a closing
parenthesis. -/
def Stops (rest : List Char) : Prop :=
  ∀ character ∈ rest.head?, character = ' ' ∨ character = ')'

/-- A character of which a literal may consist that is no string. -/
def isPlain (character : Char) : Bool :=
  decide (character ∉ [' ', '"', '(', ')'])

theorem stops_space (rest : List Char) : Stops (' ' :: rest) := by
  simp [Stops]

theorem stops_rightParen (rest : List Char) : Stops (')' :: rest) := by
  simp [Stops]

theorem Stops.not_isPlain {rest : List Char} (hstops : Stops rest) :
    ∀ character ∈ rest.head?, isPlain character = false := by
  intro character hhead
  rcases hstops character hhead with rfl | rfl <;> decide

/-! ### The texts of literals -/

/-- A text that a literal may have: a row of plain characters, or any text without quotes between
two of them. -/
inductive IsLiteralText : List Char → Prop
  | plain {head : Char} {tail : List Char}
      (hplain : ∀ character ∈ head :: tail, isPlain character = true) : IsLiteralText (head :: tail)
  | quoted {characters : List Char} (hcharacters : '"' ∉ characters) :
      IsLiteralText ('"' :: (characters ++ ['"']))

namespace IsLiteralText

variable {first second rest other : List Char}

/-- No literal begins with a parenthesis. -/
theorem append_ne (hfirst : IsLiteralText first) (rest tail : List Char) :
    first ++ rest ≠ '(' :: tail := by
  intro happend
  cases hfirst with
  | plain hplain =>
    cases happend
    exact absurd (hplain '(' List.mem_cons_self) (by decide)
  | quoted _ => cases happend

/-- The end of a literal is seen from the left. -/
theorem append_inj (hfirst : IsLiteralText first) (hsecond : IsLiteralText second)
    (hrest : Stops rest) (hother : Stops other) (happend : first ++ rest = second ++ other) :
    first = second ∧ rest = other := by
  cases hfirst with
  | plain hplain =>
    cases hsecond with
    | plain hotherPlain =>
      exact append_inj_of_head? hplain hotherPlain hrest.not_isPlain hother.not_isPlain happend
    | quoted _ =>
      obtain ⟨rfl, _⟩ := List.cons.inj happend
      exact absurd (hplain '"' List.mem_cons_self) (by decide)
  | @quoted contents hcontents =>
    cases hsecond with
    | plain hotherPlain =>
      obtain ⟨rfl, _⟩ := List.cons.inj happend
      exact absurd (hotherPlain '"' List.mem_cons_self) (by decide)
    | @quoted characters hcharacters =>
      have hinside : contents ++ '"' :: rest = characters ++ '"' :: other := by
        simpa using happend
      obtain ⟨rfl, rfl⟩ := append_cons_inj_of_not_mem hcontents hcharacters hinside
      exact ⟨rfl, rfl⟩

end IsLiteralText

theorem isPlain_of_isLetter_or_isDecimalDigit {character : Char}
    (hpart : IsLetter character ∨ IsDecimalDigit character) : isPlain character = true := by
  refine decide_eq_true fun hmem ↦ ?_
  simp only [List.mem_cons, List.not_mem_nil, or_false] at hmem
  rcases hmem with rfl | rfl | rfl | rfl <;> exact absurd hpart (by decide)

theorem IsDigits.isPlain {digits : List Char} (hdigits : IsDigits digits) :
    ∀ character ∈ digits, isPlain character = true :=
  fun character hmem ↦
    isPlain_of_isLetter_or_isDecimalDigit (.inr (hdigits.isDecimalDigit character hmem))

theorem LexemeClass.Contains.isLiteralText {kind : LexemeClass} {lexeme : List Char}
    (hcontains : kind.Contains lexeme) (hkind : kind = .word ∨ kind = .numeral) :
    IsLiteralText lexeme := by
  have hplain : ∀ character ∈ lexeme, isPlain character = true := by
    cases hcontains with
    | word hhead htail =>
      rw [List.forall_mem_cons]
      exact ⟨isPlain_of_isLetter_or_isDecimalDigit (.inl hhead),
        fun character hmem ↦ isPlain_of_isLetter_or_isDecimalDigit (htail character hmem)⟩
    | whole hdigits => exact hdigits.isPlain
    | fraction hwhole hfraction =>
      rw [List.forall_mem_append, List.forall_mem_cons]
      exact ⟨hwhole.isPlain, by decide, hfraction.isPlain⟩
    | _ => rcases hkind with hkind | hkind <;> cases hkind
  obtain ⟨head, tail, rfl⟩ := List.exists_cons_of_ne_nil hcontains.ne_nil
  exact .plain hplain

theorem Takes.isLiteralText {kind : TokenKind} {text lexeme rest : List Char}
    (htakes : Takes text ⟨.token kind, lexeme⟩ rest)
    (hkind : kind = .identifier ∨ ∃ value, kind.IsLiteral value) : IsLiteralText lexeme := by
  cases htakes with
  | lexeme _ hlongest hdenotes =>
    have hcontains := hlongest.contains
    cases hdenotes with
    | symbol _ => rcases hkind with hkind | ⟨_, hkind⟩ <;> cases hkind
    | keyword _ => exact hcontains.isLiteralText (.inl rfl)
    | name _ => exact hcontains.isLiteralText (.inl rfl)
    | numeral _ => exact hcontains.isLiteralText (.inr rfl)
    | string _ => exact .quoted hcontains.quote_not_mem
  | unrecognized _ _ _ => rcases hkind with hkind | ⟨_, hkind⟩ <;> cases hkind

namespace Value.IsLegible

variable {value other : Value}

/-- The text of a literal is one lexeme. It denotes the value, or it is a name and the value is the
infinite number. -/
theorem exists_takes (hlegible : value.IsLegible) :
    let text := (Expr.literal value).text.toList
    ∃ kind : TokenKind, Takes text ⟨.token kind, text⟩ [] ∧
      (kind.IsLiteral value ∨ kind = .identifier ∧ value = .number Number.infinite) := by
  intro text
  rcases hlegible with hwritable | rfl
  · obtain ⟨kind, hliteral, htakes⟩ := exists_takes_literal hwritable
    exact ⟨kind, htakes, .inl hliteral⟩
  · refine ⟨.identifier, ?_, .inr ⟨rfl, rfl⟩⟩
    rw [show text = ['i', 'n', 'f'] from congrArg String.toList Number.text_infinite]
    exact takes_iff_cut.mpr (by cbv)

theorem isLiteralText (hlegible : value.IsLegible) :
    IsLiteralText (Expr.literal value).text.toList := by
  obtain ⟨kind, htakes, hliteral | ⟨hname, _⟩⟩ := hlegible.exists_takes
  · exact htakes.isLiteralText (.inr ⟨value, hliteral⟩)
  · exact htakes.isLiteralText (.inl hname)

theorem eq_of_text_eq (hlegible : value.IsLegible) (hother : other.IsLegible)
    (htext : (Expr.literal value).text.toList = (Expr.literal other).text.toList) :
    value = other := by
  obtain ⟨kind, htakes, hkind⟩ := hlegible.exists_takes
  obtain ⟨otherKind, hotherTakes, hotherKind⟩ := hother.exists_takes
  have hpieces := pieces_of_takes_alone htakes
  rw [htext, pieces_of_takes_alone hotherTakes] at hpieces
  cases hpieces
  rcases hkind with hliteral | ⟨rfl, rfl⟩
  · rcases hotherKind with hotherLiteral | ⟨rfl, _⟩
    · rw [← TokenKind.literal?_eq_some_iff] at hliteral hotherLiteral
      exact Option.some.inj (hliteral.symm.trans hotherLiteral)
    · cases hliteral
  · rcases hotherKind with hotherLiteral | ⟨_, rfl⟩
    · cases hotherLiteral
    · rfl

end Value.IsLegible

/-! ### The texts of operators -/

theorem Symbol.eq_of_characters_eq {mark other : Symbol}
    (hcharacters : mark.characters = other.characters) : mark = other := by
  have hpieces := pieces_of_takes_alone (takes_symbol_alone mark)
  rw [hcharacters, pieces_of_takes_alone (takes_symbol_alone other)] at hpieces
  cases hpieces
  rfl

theorem Symbol.space_not_mem (mark : Symbol) : ' ' ∉ mark.characters := by
  cases mark <;> decide

/-- No symbol is written as a group is. -/
theorem Symbol.characters_ne_group (mark : Symbol) :
    mark.characters ≠ ['g', 'r', 'o', 'u', 'p'] := by
  cases mark <;> decide

namespace Expr

/-! ### Trees are read from the left -/

variable {rest : List Char}

theorem toList_text_group_append (inner : Expr) :
    (group inner).text.toList ++ rest =
      '(' :: (['g', 'r', 'o', 'u', 'p'] ++ ' ' :: (inner.text.toList ++ ')' :: rest)) := by
  simp [text]

theorem toList_text_unary_append (mark : Symbol) (line : Nat) (operand : Expr) :
    (unary (mark.tokenOn line) operand).text.toList ++ rest =
      '(' :: (mark.characters ++ ' ' :: (operand.text.toList ++ ')' :: rest)) := by
  simp [text, Symbol.tokenOn]

theorem toList_text_binary_append (mark : Symbol) (line : Nat) (left right : Expr) :
    (binary (mark.tokenOn line) left right).text.toList ++ rest =
      '(' :: (mark.characters ++
        ' ' :: (left.text.toList ++ ' ' :: (right.text.toList ++ ')' :: rest))) := by
  simp [text, Symbol.tokenOn]

/-- The word behind an opening parenthesis is seen from the left. -/
theorem word_append_inj {word other body later : List Char} (hword : ' ' ∉ word)
    (hother : ' ' ∉ other)
    (happend : '(' :: (word ++ ' ' :: body) = '(' :: (other ++ ' ' :: later)) :
    word = other ∧ body = later :=
  append_cons_inj_of_not_mem hword hother (List.cons.inj happend).2

/-- The tree and the end of its text are seen from the left. -/
def IsReadable (expression : Expr) : Prop :=
  ∀ ⦃other : Expr⦄ ⦃rest later : List Char⦄, other.Legible → Stops rest → Stops later →
    expression.text.toList ++ rest = other.text.toList ++ later →
    expression.withoutLines = other.withoutLines ∧ rest = later

namespace IsReadable

variable {inner operand left right : Expr}

theorem literal {value : Value} (hvalue : value.IsLegible) : IsReadable (literal value) := by
  intro other rest later hother hrest hlater happend
  have hliteral := hvalue.isLiteralText
  cases hother with
  | literal hotherValue =>
    obtain ⟨htext, hends⟩ := hliteral.append_inj hotherValue.isLiteralText hrest hlater happend
    rw [hvalue.eq_of_text_eq hotherValue htext]
    exact ⟨rfl, hends⟩
  | group _ =>
    rw [toList_text_group_append] at happend
    exact absurd happend (hliteral.append_ne _ _)
  | unary _ _ _ =>
    rw [toList_text_unary_append] at happend
    exact absurd happend (hliteral.append_ne _ _)
  | binary _ _ _ _ =>
    rw [toList_text_binary_append] at happend
    exact absurd happend (hliteral.append_ne _ _)

theorem group (hinner : IsReadable inner) : IsReadable (group inner) := by
  intro other rest later hother hrest hlater happend
  rw [toList_text_group_append] at happend
  cases hother with
  | literal hvalue => exact absurd happend.symm (hvalue.isLiteralText.append_ne _ _)
  | group hotherInner =>
    rw [toList_text_group_append] at happend
    obtain ⟨_, hbody⟩ := word_append_inj (by decide) (by decide) happend
    obtain ⟨hsame, hends⟩ :=
      hinner hotherInner (stops_rightParen rest) (stops_rightParen later) hbody
    exact ⟨congrArg Expr.group hsame, (List.cons.inj hends).2⟩
  | unary mark _ _ =>
    rw [toList_text_unary_append] at happend
    obtain ⟨hword, _⟩ := word_append_inj (by decide) mark.space_not_mem happend
    exact absurd hword.symm mark.characters_ne_group
  | binary mark _ _ _ =>
    rw [toList_text_binary_append] at happend
    obtain ⟨hword, _⟩ := word_append_inj (by decide) mark.space_not_mem happend
    exact absurd hword.symm mark.characters_ne_group

theorem unary (mark : Symbol) (line : Nat) (hoperand : IsReadable operand) :
    IsReadable (unary (mark.tokenOn line) operand) := by
  intro other rest later hother hrest hlater happend
  rw [toList_text_unary_append] at happend
  cases hother with
  | literal hvalue => exact absurd happend.symm (hvalue.isLiteralText.append_ne _ _)
  | group _ =>
    rw [toList_text_group_append] at happend
    obtain ⟨hword, _⟩ := word_append_inj mark.space_not_mem (by decide) happend
    exact absurd hword mark.characters_ne_group
  | unary otherMark _ hotherOperand =>
    rw [toList_text_unary_append] at happend
    obtain ⟨hword, hbody⟩ := word_append_inj mark.space_not_mem otherMark.space_not_mem happend
    obtain ⟨hsame, hends⟩ :=
      hoperand hotherOperand (stops_rightParen rest) (stops_rightParen later) hbody
    rw [Symbol.eq_of_characters_eq hword]
    exact ⟨congrArg (Expr.unary _) hsame, (List.cons.inj hends).2⟩
  | binary otherMark _ hotherLeft _ =>
    -- Behind the first operand there is a parenthesis in one text and a space in the other.
    rw [toList_text_binary_append] at happend
    obtain ⟨_, hbody⟩ := word_append_inj mark.space_not_mem otherMark.space_not_mem happend
    obtain ⟨_, hends⟩ := hoperand hotherLeft (stops_rightParen rest) (stops_space _) hbody
    cases hends

theorem binary (mark : Symbol) (line : Nat) (hleft : IsReadable left) (hright : IsReadable right) :
    IsReadable (binary (mark.tokenOn line) left right) := by
  intro other rest later hother hrest hlater happend
  rw [toList_text_binary_append] at happend
  cases hother with
  | literal hvalue => exact absurd happend.symm (hvalue.isLiteralText.append_ne _ _)
  | group _ =>
    rw [toList_text_group_append] at happend
    obtain ⟨hword, _⟩ := word_append_inj mark.space_not_mem (by decide) happend
    exact absurd hword mark.characters_ne_group
  | unary otherMark _ hotherOperand =>
    rw [toList_text_unary_append] at happend
    obtain ⟨_, hbody⟩ := word_append_inj mark.space_not_mem otherMark.space_not_mem happend
    obtain ⟨_, hends⟩ := hleft hotherOperand (stops_space _) (stops_rightParen later) hbody
    cases hends
  | binary otherMark _ hotherLeft hotherRight =>
    rw [toList_text_binary_append] at happend
    obtain ⟨hword, hbody⟩ := word_append_inj mark.space_not_mem otherMark.space_not_mem happend
    obtain ⟨hsameLeft, hbehind⟩ := hleft hotherLeft (stops_space _) (stops_space _) hbody
    obtain ⟨hsameRight, hends⟩ := hright hotherRight (stops_rightParen rest)
      (stops_rightParen later) (List.cons.inj hbehind).2
    rw [Symbol.eq_of_characters_eq hword]
    exact ⟨congrArg₂ (Expr.binary _) hsameLeft hsameRight, (List.cons.inj hends).2⟩

end IsReadable

theorem Legible.isReadable {expression : Expr} (hlegible : expression.Legible) :
    expression.IsReadable := by
  induction hlegible with
  | literal hvalue => exact .literal hvalue
  | group _ ih => exact ih.group
  | unary mark line _ ih => exact ih.unary mark line
  | binary mark line _ _ ihleft ihright => exact ihleft.binary mark line ihright

theorem Legible.withoutLines_eq_of_text_eq {expression other : Expr}
    (hlegible : expression.Legible) (hother : other.Legible)
    (htext : expression.text = other.text) : expression.withoutLines = other.withoutLines := by
  have hstops : Stops [] := by simp [Stops]
  exact (hlegible.isReadable hother hstops hstops (by rw [htext])).1

end Expr

/-! ### Trees of source texts -/

/-- Trees that are read from source texts are the same but for lines if their texts are. So they
come to the same, but for the line of a fault. -/
theorem parse_scan_determined_by_text {source otherSource : String} {expression other : Expr}
    (hparse : (Parser.ofTokens (scan source).tokens).parse.1 = .ok expression)
    (hotherParse : (Parser.ofTokens (scan otherSource).tokens).parse.1 = .ok other)
    (htext : expression.text = other.text) :
    expression.withoutLines = other.withoutLines ∧
      expression.evaluate.mapError Diagnostic.withoutLine =
        other.evaluate.mapError Diagnostic.withoutLine := by
  have hsame := (legible_of_parse_scan hparse).withoutLines_eq_of_text_eq
    (legible_of_parse_scan hotherParse) htext
  exact ⟨hsame, Expr.evaluate_eq_of_withoutLines hsame⟩

/-- The second text has its operators on other lines and an open string behind the tree. -/
theorem parse_scan_determined_by_text_negated_string :
    let tree (line later : Nat) : Expr :=
      .binary (Symbol.equalEqual.tokenOn later)
        (.unary (Symbol.minus.tokenOn line) (.literal (.string "a) (- nil")))
        (.group (.literal .nil))
    (Parser.ofTokens (scan "-\"a) (- nil\" == (nil)").tokens).parse.1 = .ok (tree 1 1) ∧
      (Parser.ofTokens (scan "\n-\"a) (- nil\"\n==( // (\nnil);\"").tokens).parse.1 =
        .ok (tree 2 3) ∧
      (tree 1 1).text = "(== (- \"a) (- nil\") (group nil))" ∧
      (tree 1 1).text = (tree 2 3).text ∧
      (tree 1 1).withoutLines = (tree 2 3).withoutLines ∧
      (tree 1 1).evaluate.mapError Diagnostic.withoutLine =
        (tree 2 3).evaluate.mapError Diagnostic.withoutLine := by
  intro tree
  have hparse : (Parser.ofTokens (scan "-\"a) (- nil\" == (nil)").tokens).parse.1 =
      .ok (tree 1 1) := by
    cbv
  have hotherParse : (Parser.ofTokens
      (scan "\n-\"a) (- nil\"\n==( // (\nnil);\"").tokens).parse.1 = .ok (tree 2 3) := by
    cbv
  have htext : (tree 1 1).text = (tree 2 3).text := rfl
  obtain ⟨hsame, hevaluate⟩ := parse_scan_determined_by_text hparse hotherParse htext
  exact ⟨hparse, hotherParse, by decide +kernel, htext, hsame, hevaluate⟩

end Lox
