import Lox.Proofs.Lexing.MaximalMunch

/-!
# Where the tokens of a scan come from

Every token of a scan but that of the end is taken somewhere in the source text: its lexeme is what
a step takes there, and its line is the one on which the lexeme ends (`exists_takes_of_mem_tokens`).
So the lexeme of any token stands in the text (`standsIn_of_mem_tokens`), only strings have newlines
in their lexemes (`exists_string_of_newline_mem`), and no string has a quote inside
(`quote_not_mem_of_mem_tokens`).
-/

set_option autoImplicit false
set_option relaxedAutoImplicit false

namespace Lox

variable {token : Token}

/-- Left to right, where the text before the first step has been passed already. -/
theorem exists_takes_of_mem_scanFrom {passed text : List Char} {line : Nat}
    (hmem : token ∈ (scanFrom (lineAfter line passed) text).tokens) :
    token = ⟨.endOfInput, "", lineAfter line (passed ++ text)⟩ ∨
      ∃ before lexeme rest, passed ++ text = before ++ (lexeme ++ rest) ∧
        Takes (lexeme ++ rest) ⟨.token token.kind, lexeme⟩ rest ∧
        token.lexeme = String.ofList lexeme ∧
        token.line = lineAfter line (before ++ lexeme) := by
  induction text using takes_induction generalizing passed with
  | nil =>
    rw [scanFrom_nil, List.mem_singleton] at hmem
    rw [List.append_nil]
    exact .inl hmem
  | step text rest piece htakes ih =>
    have htext := htakes.append_eq
    rw [scanFrom_of_takes htakes, ← lineAfter_append] at hmem
    rcases List.mem_append.mp hmem with hmem | hmem
    · obtain ⟨_ | kind | _, lexeme⟩ := piece
      · cases hmem
      · obtain rfl := List.mem_singleton.mp hmem
        rw [← htext] at htakes ⊢
        exact .inr ⟨passed, lexeme, rest, rfl, htakes, rfl, rfl⟩
      · cases hmem
    · have hlater := ih hmem
      rwa [List.append_assoc, htext] at hlater

theorem exists_takes_of_mem_tokens {source : String} (hmem : token ∈ (scan source).tokens) :
    token = ⟨.endOfInput, "", lineAfter 1 source.toList⟩ ∨
      ∃ before lexeme rest, source.toList = before ++ (lexeme ++ rest) ∧
        Takes (lexeme ++ rest) ⟨.token token.kind, lexeme⟩ rest ∧
        token.lexeme = String.ofList lexeme ∧
        token.line = lineAfter 1 (before ++ lexeme) :=
  @exists_takes_of_mem_scanFrom token [] source.toList 1 hmem

/-! ### Places -/

/-- The lexeme of the token stands somewhere in the text and ends there on the token's line. -/
def Token.StandsIn (token : Token) (text : List Char) : Prop :=
  ∃ before after, text = before ++ token.lexeme.toList ++ after ∧
    token.line = lineAfter 1 (before ++ token.lexeme.toList)

theorem standsIn_of_mem_tokens {source : String} (hmem : token ∈ (scan source).tokens) :
    token.StandsIn source.toList := by
  rcases exists_takes_of_mem_tokens hmem with rfl | ⟨before, lexeme, rest, htext, _, hlexeme, hline⟩
  · exact ⟨source.toList, [], by simp, by simp⟩
  · refine ⟨before, rest, ?_, ?_⟩
    · rw [hlexeme, String.toList_ofList, List.append_assoc, htext]
    · rw [hlexeme, String.toList_ofList, hline]

namespace Token.StandsIn

variable {text : List Char}

theorem newline_not_mem (hstands : token.StandsIn text) (hline : '\n' ∉ text) :
    '\n' ∉ token.lexeme.toList := by
  obtain ⟨before, after, rfl, _⟩ := hstands
  exact fun hmem ↦ hline (List.mem_append_left _ (List.mem_append_right _ hmem))

theorem line_eq_one (hstands : token.StandsIn text) (hline : '\n' ∉ text) : token.line = 1 := by
  obtain ⟨before, after, rfl, hplace⟩ := hstands
  have hnone := mt (List.mem_append_left after) hline
  rw [hplace, lineAfter, List.count_eq_zero_of_not_mem hnone]

end Token.StandsIn

/-! ### Lexemes of strings -/

/-- The lexemes that may hold a newline are strings. -/
theorem LexemeClass.Contains.newline_not_mem {kind : LexemeClass} {lexeme : List Char}
    (hcontains : kind.Contains lexeme) (hkind : kind ≠ .string) : '\n' ∉ lexeme := by
  intro hmem
  rcases hcontains.string_or_comment_of_isBlank_mem (by decide) hmem with hstring | ⟨_, hother⟩
  · exact hkind hstring
  · exact hother rfl

theorem Takes.exists_string_of_newline_mem {kind : TokenKind} {text lexeme rest : List Char}
    (htakes : Takes text ⟨.token kind, lexeme⟩ rest) (hnewline : '\n' ∈ lexeme) :
    ∃ characters, kind = .string characters := by
  cases htakes with
  | lexeme _ hlongest hdenotes =>
    obtain ⟨hcontains, _⟩ := hlongest
    cases hdenotes with
    | string characters => exact ⟨String.ofList characters, rfl⟩
    | _ => exact absurd hnewline (hcontains.newline_not_mem (by simp))
  | unrecognized hstart _ _ =>
    rw [← List.mem_singleton.mp hnewline] at hstart
    exact absurd (by decide) hstart

theorem exists_string_of_newline_mem {source : String} (hmem : token ∈ (scan source).tokens)
    (hnewline : '\n' ∈ token.lexeme.toList) : ∃ characters, token.kind = .string characters := by
  rcases exists_takes_of_mem_tokens hmem with rfl | ⟨_, lexeme, _, _, htakes, hlexeme, _⟩
  · simp at hnewline
  · rw [hlexeme, String.toList_ofList] at hnewline
    exact htakes.exists_string_of_newline_mem hnewline

theorem Takes.quote_not_mem {characters : String} {text lexeme rest : List Char}
    (htakes : Takes text ⟨.token (.string characters), lexeme⟩ rest) :
    '"' ∉ characters.toList := by
  cases htakes with
  | lexeme _ hlongest hdenotes =>
    cases hdenotes with
    | string contents =>
      rw [String.toList_ofList]
      exact hlongest.contains.quote_not_mem

theorem quote_not_mem_of_mem_tokens {source characters : String}
    (hmem : token ∈ (scan source).tokens) (hkind : token.kind = .string characters) :
    '"' ∉ characters.toList := by
  rcases exists_takes_of_mem_tokens hmem with rfl | ⟨_, _, _, _, htakes, _, _⟩
  · cases hkind
  · rw [hkind] at htakes
    exact htakes.quote_not_mem

end Lox
