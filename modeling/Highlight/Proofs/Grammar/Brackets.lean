/-
**A grammar that sees no further than a character.**

* `Regex.Matcher.ofCharacter`: what matches a character of one byte, with `isLocal_ofCharacter`;
* `Grammar.brackets`: the grammar whose only regions are between round brackets; it is local;
* `Text.replace_brackets`: an edit of a text with brackets.
-/

import Highlight.Proofs.Scan.Locality

namespace Highlight

/-! ### Characters -/

namespace Regex.Matcher

/-- The matcher of the character that is this byte alone, which its only group captures. -/
def ofCharacter (byte : UInt8) : Matcher :=
  ⟨fun subject _ position _ =>
    if subject.byte? position = some byte ∧ subject.isBoundary (position + 1) = true then
      some ⟨position, position + 1, [some (position, position + 1)]⟩
    else none⟩

/-- What matches a character in a window is told by the text. -/
theorem attempt_ofCharacter (byte : UInt8) {text : Text} {window : Window} {reach position origin : Nat}
    (held : text.Held) (shown : window.Shows text reach position) :
    (ofCharacter byte).attempt window.subject origin (window.relative position) window.flags =
      if text.byte? position = some byte ∧ text.isBoundary (position + 1) = true then
        some ⟨window.relative position, window.relative position + 1,
          [some (window.relative position, window.relative position + 1)]⟩
      else none := by
  obtain ⟨stop, covers, offset, inside, -⟩ := shown.covers held.size_lt_maxSize.le
  have relative : window.offset + window.relative position = position := Nat.add_sub_cancel' offset
  have here : window.subject.byte? (window.relative position) = text.byte? position := by
    rw [covers.subject, Text.byte?_extract, if_pos (by omega), relative]
  have next : window.subject.isBoundary (window.relative position + 1) =
      text.isBoundary (position + 1) := by
    rw [Bool.eq_iff_iff, covers.isBoundary, ← Nat.add_assoc, relative]
    exact ⟨fun both => both.2, fun boundary => ⟨inside, boundary⟩⟩
  unfold ofCharacter
  simp only [here, next]

/-- Where a character matches is told by the character and by what is behind it. -/
theorem isLocal_ofCharacter (byte : UInt8) {reach : Nat} (positive : 1 ≤ reach) :
    (ofCharacter byte).Local reach := by
  constructor
  · intro first second window other position place origin start firstHeld secondHeld shown shownToo
      boundary boundaryToo same behind behindToo
    obtain ⟨stop, -, offset, -, -⟩ := shown.covers firstHeld.size_lt_maxSize.le
    obtain ⟨stopToo, -, offsetToo, -, -⟩ := shownToo.covers secondHeld.size_lt_maxSize.le
    rw [attempt_ofCharacter byte firstHeld shown, attempt_ofCharacter byte secondHeld shownToo,
      same.byte?_eq (Nat.add_comm position place) (by omega) (by omega),
      same.isBoundary_eq (show position + 1 + place = place + 1 + position by omega) (by omega)
        (by omega)]
    have aligned : window.relative position + (window.offset + place) =
        other.relative place + (other.offset + position) := by
      unfold Window.relative
      omega
    split
    · simp only [Option.map_some, Match.moved, List.map_cons, List.map_nil, Nat.add_right_comm,
        aligned]
    · rfl
  · intro text position found held inside boundary here
    unfold matchAt ofCharacter at here
    simp only at here
    split at here
    · rename_i matched
      cases here
      refine ⟨rfl, Nat.le_succ _, by simp only; omega, matched.2, ?_⟩
      intro group first last captured
      cases group with
      | zero =>
        cases captured
        omega
      | succ group => cases captured
    · cases here

end Regex.Matcher

/-! ### Brackets -/

namespace Grammar

/-- The regex of a character of one byte. -/
def character (source : String) (byte : UInt8) : Regex :=
  ⟨source, .ofCharacter byte, .ok (.ofCharacter byte)⟩

/-- The grammar whose regions are between round brackets and may be nested. -/
def brackets : Grammar where
  name := "brackets"
  displayName := none
  fileTypes := []
  styles := #[defaultStyleName, "group"]
  regexes := #[character "[(]" 0x28, character "[)]" 0x29]
  patterns := #[{ Pattern.blank 0 1 with children := [1] },
    { Pattern.blank 1 1 with
      style := some 1, opening := some 0, closing := some 1, children := [1] }]
  maxExtend := 1
  approximate := false

theorem wellFormed_brackets : brackets.WellFormed := ⟨⟨_, rfl⟩, by decide⟩

/-- Both regexes of the grammar match a character. -/
theorem regex_of_brackets {id : RegexId} {regex : Regex} (known : brackets.regexes[id]? = some regex) :
    ∃ source byte, regex = character source byte := by
  have member : regex ∈ [character "[(]" 0x28, character "[)]" 0x29] :=
    List.mem_of_getElem? (show brackets.regexes.toList[id]? = some regex from
      Array.getElem?_toList.trans known)
  rcases List.mem_cons.mp member with rfl | later
  · exact ⟨_, _, rfl⟩
  · rw [List.mem_singleton.mp later]
    exact ⟨_, _, rfl⟩

theorem isLocal_brackets : brackets.Local := by
  constructor
  · intro pattern _ id _ regex known
    obtain ⟨source, byte, rfl⟩ := regex_of_brackets known
    exact Regex.Matcher.isLocal_ofCharacter byte le_rfl
  · intro pattern _ id _ regex matcher known member
    obtain ⟨source, byte, rfl⟩ := regex_of_brackets known
    cases member
    exact Regex.Matcher.isLocal_ofCharacter byte le_rfl

end Grammar

/-! ### A text with brackets -/

namespace Text

theorem held_brackets : (ofString "a(b)").Held := ⟨isUtf8_ofString _, by decide⟩

theorem replace_brackets :
    (ofString "a(b)").replace 3 3 "c" = .ok (ofString "a(bc)", ⟨3, 3, 1⟩) := by
  have spliced : (ofString "a(b)").splice 3 3 (ofString "c") = ofString "a(bc)" := rfl
  have lengths : Change.ofLengths 3 3 1 = .ok ⟨3, 3, 1⟩ := by rfl
  rw [← spliced]
  exact replace_of_isSlice (by decide) rfl lengths

end Text

end Highlight
