import Lox.Proofs.Lexing.Alone
import Lox.Proofs.Lexing.Origin

/-!
# Lexemes in a row

The lexeme of a scanned token is taken whole when it stands alone, and it stands for the same there
(`Token.IsScanned.takes_alone`). So tokens from any source texts, in any order, are scanned again
from their lexemes: put one blank between neighbours, be it a newline or another, and the scan finds
the same kinds and lexemes and nothing wrong (`scan_joined`).
-/

set_option autoImplicit false
set_option relaxedAutoImplicit false

namespace Lox

/-! ### Scanned tokens -/

/-- The token is in the scan of some source text, and it is not that of the end. -/
structure Token.IsScanned (token : Token) : Prop where
  exists_mem : ∃ source, token ∈ (scan source).tokens
  isEnd_eq : token.kind.isEnd = false

theorem Token.IsScanned.takes_alone {token : Token} (hscanned : token.IsScanned) :
    Takes token.lexeme.toList ⟨.token token.kind, token.lexeme.toList⟩ [] := by
  obtain ⟨⟨source, hmem⟩, hend⟩ := hscanned
  rcases exists_takes_of_mem_tokens hmem with rfl | ⟨_, lexeme, rest, _, htakes, hlexeme, _⟩
  · cases hend
  · rw [hlexeme, String.toList_ofList]
    have halone := @Takes.of_append lexeme [] rest _ htakes (by simp)
    rwa [List.append_nil] at halone

/-! ### Texts that hold tokens -/

/-- A complete text whose tokens are the given ones but for lines, wherever the text begins. -/
structure Holds (text : List Char) (tokens : List Token) : Prop where
  isComplete : IsComplete text
  tokensFrom_eq : ∀ line,
    (tokensFrom line text).map Token.withoutLine = tokens.map Token.withoutLine

theorem holds_nil : Holds [] [] :=
  ⟨isComplete_nil, fun line ↦ by rw [tokensFrom_nil]⟩

theorem Token.IsScanned.holds {token : Token} (hscanned : token.IsScanned) :
    Holds token.lexeme.toList [token] := by
  have halone := hscanned.takes_alone
  refine ⟨isComplete_of_takes_alone halone, fun line ↦ ?_⟩
  rw [tokensFrom_of_takes_alone halone, String.ofList_toList]
  rfl

namespace Holds

variable {text later : List Char} {tokens laterTokens : List Token}

theorem append (hfirst : Holds text tokens) (hsecond : Holds later laterTokens) {separator : Char}
    (hblank : IsBlank separator) :
    Holds (text ++ separator :: later) (tokens ++ laterTokens) := by
  refine ⟨hfirst.isComplete.append hsecond.isComplete hblank, fun line ↦ ?_⟩
  rw [hfirst.isComplete.tokensFrom_append hblank, List.map_append, List.map_append,
    hfirst.tokensFrom_eq, hsecond.tokensFrom_eq]

theorem scan_eq (hholds : Holds text tokens) :
    (scan (String.ofList text)).errors = [] ∧
      (scan (String.ofList text)).tokens.map Token.withoutLine =
        tokens.map Token.withoutLine ++ [⟨.endOfInput, "", 0⟩] := by
  rw [scan_eq_scanFrom, String.toList_ofList]
  refine ⟨errors_scanFrom_eq_nil_iff.mpr hholds.isComplete.isClosed, ?_⟩
  rw [tokens_scanFrom, List.map_append, hholds.tokensFrom_eq]
  rfl

end Holds

/-! ### Joined lexemes -/

/-- The text is made of the lexemes of the tokens, in their order, with one blank between
neighbours. -/
inductive Joins : List Token → List Char → Prop
  | nil : Joins [] []
  | single (token : Token) : Joins [token] token.lexeme.toList
  | cons (token : Token) {next : Token} {rest : List Token} {separator : Char} {text : List Char}
      (hblank : IsBlank separator) (hrest : Joins (next :: rest) text) :
      Joins (token :: next :: rest) (token.lexeme.toList ++ separator :: text)

theorem Joins.holds {tokens : List Token} {text : List Char} (hjoins : Joins tokens text)
    (hscanned : ∀ token ∈ tokens, token.IsScanned) : Holds text tokens := by
  induction hjoins with
  | nil => exact holds_nil
  | single token => exact (hscanned token List.mem_cons_self).holds
  | cons token hblank _ ih =>
    rw [List.forall_mem_cons] at hscanned
    exact hscanned.1.holds.append (ih hscanned.2) hblank

/-- Scanned tokens are scanned again from their joined lexemes: nothing is wrong with these, and the
kinds with all that numbers and strings denote are the same, and so are the lexemes. A lexeme alone
has the kind of its token. -/
theorem scan_joined {tokens : List Token} (hscanned : ∀ token ∈ tokens, token.IsScanned) :
    (∀ text, Joins tokens text →
      (scan (String.ofList text)).errors = [] ∧
        (scan (String.ofList text)).tokens.map Token.withoutLine =
          tokens.map Token.withoutLine ++ [⟨.endOfInput, "", 0⟩]) ∧
    ∀ token ∈ tokens,
      (scan token.lexeme).errors = [] ∧
        (scan token.lexeme).tokens.map Token.kind = [token.kind, .endOfInput] := by
  refine ⟨fun text hjoins ↦ (hjoins.holds hscanned).scan_eq, fun token hmem ↦ ?_⟩
  obtain ⟨herrors, htokens⟩ := (hscanned token hmem).holds.scan_eq
  rw [String.ofList_toList] at herrors htokens
  have hkinds := congrArg (List.map Token.kind) htokens
  rw [List.map_map] at hkinds
  exact ⟨herrors, hkinds⟩

/-- Two slashes do not become a comment, and that in the string is none. The tokens are on the lines
of their own source texts. -/
theorem scan_joined_slashes :
    let slash : Token := ⟨.symbol .slash, "/", 2⟩
    let string : Token := ⟨.string "//\n", "\"//\n\"", 2⟩
    let tokens := [slash, slash, string]
    (∀ token ∈ tokens, token.IsScanned) ∧ Joins tokens "/\t/\n\"//\n\"".toList ∧
      (scan "/\t/\n\"//\n\"").errors = [] ∧
      (scan "/\t/\n\"//\n\"").tokens.map Token.withoutLine =
        tokens.map Token.withoutLine ++ [⟨.endOfInput, "", 0⟩] ∧
      (scan "/").tokens.map Token.kind = [.symbol .slash, .endOfInput] := by
  intro slash string tokens
  have hslash : slash.IsScanned := by
    have htokens : (scan "\n/nil").tokens =
        [slash, ⟨.keyword .nilWord, "nil", 2⟩, ⟨.endOfInput, "", 2⟩] := by cbv
    exact ⟨⟨"\n/nil", by rw [htokens]; exact List.mem_cons_self⟩, rfl⟩
  have hstring : string.IsScanned := by
    have htokens : (scan "\"//\n\"").tokens = [string, ⟨.endOfInput, "", 2⟩] := by cbv
    exact ⟨⟨"\"//\n\"", by rw [htokens]; exact List.mem_cons_self⟩, rfl⟩
  have hscanned : ∀ token ∈ tokens, token.IsScanned := by simp [tokens, hslash, hstring]
  have htext : "/\t/\n\"//\n\"".toList = slash.lexeme.toList ++
      '\t' :: (slash.lexeme.toList ++ '\n' :: string.lexeme.toList) := by decide
  have hjoins : Joins tokens "/\t/\n\"//\n\"".toList :=
    htext ▸ .cons slash (by decide) (.cons slash (by decide) (.single string))
  obtain ⟨hwhole, halone⟩ := scan_joined hscanned
  obtain ⟨herrors, htokens⟩ := hwhole _ hjoins
  exact ⟨hscanned, hjoins, herrors, htokens, (halone slash List.mem_cons_self).2⟩

end Lox
