import Mathlib
import Lox.Text

/-!
# Lines of octets

In UTF-8 the octet of the newline stands for a newline wherever it occurs
(`newline_mem_ofText_iff`). Texts without newlines, each written with a newline behind it, are
therefore the lines of what was written, and no other texts are (`lines_flatMap_eq_map_iff`). A
newline behind some octets has no bearing on whether they are a text (`text?_append_newline`), so
octets may be cut behind their newlines (`IsCutInto`) before they are read.
-/

set_option autoImplicit false
set_option relaxedAutoImplicit false

namespace Lox.Octets

/-! ### Newlines -/

theorem utf8EncodeChar_of_lt {character : Char} (hlt : character.toNat < 128) :
    String.utf8EncodeChar character = [UInt8.ofNat character.toNat] :=
  if_pos (Nat.le_of_lt_succ hlt)

/-- A character that takes several octets has none of those that characters of one octet have. -/
theorem le_toNat_of_mem_utf8EncodeChar {character : Char} (hle : 128 ≤ character.toNat)
    {octet : UInt8} (hmem : octet ∈ String.utf8EncodeChar character) : 128 ≤ octet.toNat := by
  have hhigh {code : Nat} (hcode : 128 ≤ code ∧ code < 256) (heq : octet = UInt8.ofNat code) :
      128 ≤ octet.toNat := by
    rw [heq, UInt8.toNat_ofNat', Nat.mod_eq_of_lt hcode.2]
    exact hcode.1
  have hseveral : ¬ character.val.toNat ≤ 127 := Nat.not_le_of_lt hle
  unfold String.utf8EncodeChar at hmem
  simp only [if_neg hseveral] at hmem
  split at hmem
  case isTrue =>
    simp only [List.mem_cons, List.not_mem_nil, or_false] at hmem
    rcases hmem with heq | heq <;> exact hhigh (by omega) heq
  case isFalse =>
    split at hmem
    case isTrue =>
      simp only [List.mem_cons, List.not_mem_nil, or_false] at hmem
      rcases hmem with heq | heq | heq <;> exact hhigh (by omega) heq
    case isFalse =>
      simp only [List.mem_cons, List.not_mem_nil, or_false] at hmem
      rcases hmem with heq | heq | heq | heq <;> exact hhigh (by omega) heq

theorem newline_mem_utf8EncodeChar_iff {character : Char} :
    '\n'.toUInt8 ∈ String.utf8EncodeChar character ↔ character = '\n' := by
  constructor
  · intro hmem
    by_cases hlt : character.toNat < 128
    · rw [utf8EncodeChar_of_lt hlt, List.mem_singleton, ← UInt8.toNat_inj, UInt8.toNat_ofNat',
        Nat.mod_eq_of_lt (by omega)] at hmem
      exact Char.toNat_inj.mp hmem.symm
    · exact absurd (le_toNat_of_mem_utf8EncodeChar (Nat.le_of_not_lt hlt) hmem) (by decide)
  · rintro rfl
    decide

theorem ofText_eq_flatMap (text : String) :
    ofText text = text.toList.flatMap String.utf8EncodeChar := by
  rw [ofText, String.toUTF8, ← String.utf8Encode_toList, List.utf8Encode,
    List.toList_data_toByteArray]

/-- A text has a newline if its octets have that of a newline. -/
theorem newline_mem_ofText_iff {text : String} :
    '\n'.toUInt8 ∈ ofText text ↔ '\n' ∈ text.toList := by
  rw [ofText_eq_flatMap, List.mem_flatMap]
  simp [newline_mem_utf8EncodeChar_iff]

/-! ### Texts with a newline at the end -/

theorem ofText_append_newline (text : String) :
    ofText (text ++ "\n") = ofText text ++ ['\n'.toUInt8] :=
  ofText_append text "\n"

theorem text?_eq_some_iff {octets : Octets} {text : String} :
    text? octets = some text ↔ octets = ofText text := by
  constructor
  · intro hsome
    simp only [text?, String.fromUTF8?] at hsome
    split at hsome
    case isTrue hvalid =>
      cases hsome
      rfl
    case isFalse => cases hsome
  · rintro rfl
    exact text?_ofText text

/-- The octets before a newline at the end of a text are a text. -/
theorem exists_ofText_of_append_newline {octets : Octets} {text : String}
    (htext : octets ++ ['\n'.toUInt8] = ofText text) :
    ∃ front, octets = ofText front ∧ text = front ++ "\n" := by
  have hoctets := htext
  rw [ofText_eq_flatMap] at hoctets
  rcases List.eq_nil_or_concat' text.toList with hnil | ⟨front, last, hconcat⟩
  · simp [hnil] at hoctets
  · rw [hconcat, List.flatMap_append, List.flatMap_singleton] at hoctets
    have hlast : last = '\n' := by
      have hend := congrArg List.getLast? hoctets
      rw [List.getLast?_concat,
        List.getLast?_append_of_ne_nil _ String.utf8EncodeChar_ne_nil] at hend
      exact newline_mem_utf8EncodeChar_iff.mp (List.mem_of_getLast? hend.symm)
    have heq : text = String.ofList front ++ "\n" := by
      rw [← String.toList_inj, hconcat, hlast]
      simp
    rw [heq, ofText_append_newline] at htext
    exact ⟨String.ofList front, List.append_cancel_right htext, heq⟩

theorem text?_append_newline (octets : Octets) :
    text? (octets ++ ['\n'.toUInt8]) = (text? octets).map (· ++ "\n") := by
  cases htext : text? octets with
  | some text =>
    rw [text?_eq_some_iff] at htext
    rw [htext, ← ofText_append_newline, text?_ofText]
    rfl
  | none =>
    refine Option.eq_none_iff_forall_ne_some.mpr fun text hsome ↦ ?_
    obtain ⟨front, hfront, _⟩ := exists_ofText_of_append_newline (text?_eq_some_iff.mp hsome)
    rw [text?_eq_some_iff.mpr hfront] at htext
    cases htext

/-! ### Lines -/

theorem lines_append_newline {octets : Octets} (hline : '\n'.toUInt8 ∉ octets) (rest : Octets) :
    lines (octets ++ '\n'.toUInt8 :: rest) = octets :: lines rest := by
  induction octets with
  | nil => simp [lines]
  | cons octet later ih =>
    rw [List.mem_cons, not_or] at hline
    rw [List.cons_append, lines, if_neg (Ne.symm hline.1), ih hline.2]

theorem lines_of_newline_not_mem {octets : Octets} (hne : octets ≠ [])
    (hline : '\n'.toUInt8 ∉ octets) : lines octets = [octets] := by
  induction octets with
  | nil => exact absurd rfl hne
  | cons octet later ih =>
    rw [List.mem_cons, not_or] at hline
    rw [lines, if_neg (Ne.symm hline.1)]
    cases later with
    | nil => rfl
    | cons next rest => rw [ih (List.cons_ne_nil next rest) hline.2]

theorem newline_not_mem_of_mem_lines {octets line : Octets} (hmem : line ∈ lines octets) :
    '\n'.toUInt8 ∉ line := by
  induction octets generalizing line with
  | nil => cases hmem
  | cons octet later ih =>
    rw [lines] at hmem
    split at hmem
    case isTrue =>
      rcases List.mem_cons.mp hmem with rfl | hmem
      · exact List.not_mem_nil
      · exact ih hmem
    case isFalse hoctet =>
      split at hmem
      case h_1 => simpa [List.mem_singleton.mp hmem] using Ne.symm hoctet
      case h_2 first others hlater =>
        rw [hlater] at ih
        rcases List.mem_cons.mp hmem with rfl | hmem
        · exact List.not_mem_cons_of_ne_of_not_mem (Ne.symm hoctet) (ih List.mem_cons_self)
        · exact ih (List.mem_cons_of_mem _ hmem)

/-- Texts that are written with a newline behind each are the lines of what is written exactly if no
newline is inside them. -/
theorem lines_flatMap_eq_map_iff {texts : List String} :
    lines (texts.flatMap fun text ↦ ofText (text ++ "\n")) = texts.map ofText ↔
      ∀ text ∈ texts, '\n' ∉ text.toList := by
  constructor
  · intro hlines text hmem hnewline
    have hline : ofText text ∈ lines (texts.flatMap fun text ↦ ofText (text ++ "\n")) := by
      rw [hlines]
      exact List.mem_map_of_mem hmem
    exact newline_not_mem_of_mem_lines hline (newline_mem_ofText_iff.mpr hnewline)
  · intro htexts
    induction texts with
    | nil => rfl
    | cons text rest ih =>
      have hoctets : '\n'.toUInt8 ∉ ofText text :=
        mt newline_mem_ofText_iff.mp (htexts text List.mem_cons_self)
      rw [List.flatMap_cons, ofText_append_newline, List.append_assoc, List.singleton_append,
        lines_append_newline hoctets, ih fun text hmem ↦ htexts text (List.mem_cons_of_mem _ hmem),
        List.map_cons]

/-! ### Cuts -/

/-- Octets and the pieces that they are cut into, behind each newline. What follows the last newline
is a piece unless it is empty. -/
inductive IsCutInto : Octets → List Octets → Prop
  | nil : IsCutInto [] []
  | last {piece : Octets} (hne : piece ≠ []) (hpiece : '\n'.toUInt8 ∉ piece) :
      IsCutInto piece [piece]
  | newline {line later : Octets} {pieces : List Octets} (hline : '\n'.toUInt8 ∉ line)
      (hlater : IsCutInto later pieces) :
      IsCutInto (line ++ '\n'.toUInt8 :: later) ((line ++ ['\n'.toUInt8]) :: pieces)

theorem exists_isCutInto (octets : Octets) : ∃ pieces, octets.IsCutInto pieces := by
  induction octets with
  | nil => exact ⟨[], .nil⟩
  | cons octet rest ih =>
    obtain ⟨pieces, hcut⟩ := ih
    by_cases hoctet : octet = '\n'.toUInt8
    · subst hoctet
      have hline : '\n'.toUInt8 ∉ ([] : Octets) := List.not_mem_nil
      exact ⟨_, .newline hline hcut⟩
    · have hline {line : Octets} (hrest : '\n'.toUInt8 ∉ line) : '\n'.toUInt8 ∉ octet :: line :=
        List.not_mem_cons_of_ne_of_not_mem (Ne.symm hoctet) hrest
      cases hcut with
      | nil => exact ⟨_, .last (List.cons_ne_nil octet []) (hline List.not_mem_nil)⟩
      | last _ hpiece => exact ⟨_, .last (List.cons_ne_nil octet rest) (hline hpiece)⟩
      | newline hrest hlater => exact ⟨_, .newline (hline hrest) hlater⟩

end Lox.Octets
