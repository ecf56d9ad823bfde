/-
**Bytes and boundaries of pieces of a text.**

A piece of a text has the bytes of the text, and, if it begins and ends between characters, its
boundaries as well:

* `Text.byte?_extract`, `Text.isBoundary_extract`: a position of a piece is one of the text;
* `Text.isGreatest_floor`, `Text.isLeast_ceil`, `Text.isLeast_next`: the three ways to get to a
  boundary lead to the nearest one;
* `Text.next_extract`: the characters of a piece are those of the text.
-/

import Mathlib.Order.Bounds.Basic
import Highlight.Text.Basic

namespace Highlight.Text

/-! ### Bytes -/

theorem byte?_eq_none {text : Text} {position : Nat} :
    text.byte? position = none ↔ text.size ≤ position := by
  unfold byte? size
  split <;> simp <;> omega

theorem byte?_isSome {text : Text} {position : Nat} :
    (text.byte? position).isSome ↔ position < text.size := by
  rw [Option.isSome_iff_ne_none, ne_eq, byte?_eq_none, not_le]

theorem byte?_eq_some_getElem {text : Text} {position : Nat} (inside : position < text.bytes.size) :
    text.byte? position = some text.bytes[position] := dif_pos inside

theorem size_extract (text : Text) (start stop : Nat) :
    (text.extract start stop).size = min stop text.size - start := by
  simp only [size, extract, ByteArray.size_extract]

theorem byte?_extract (text : Text) (start stop index : Nat) :
    (text.extract start stop).byte? index =
      if start + index < stop then text.byte? (start + index) else none := by
  by_cases inside : index < (text.extract start stop).size
  · have bound := inside
    rw [size_extract] at bound
    rw [byte?_eq_some_getElem inside, if_pos (by omega),
      byte?_eq_some_getElem (show start + index < text.size by omega)]
    exact congrArg some (ByteArray.getElem_extract inside)
  · have outside := inside
    rw [size_extract] at outside
    rw [byte?_eq_none.mpr (not_lt.mp inside)]
    split
    · exact (byte?_eq_none.mpr (by omega)).symm
    · rfl

theorem extract_zero_size (text : Text) : text.extract 0 text.size = text := by
  simp only [extract, size, ByteArray.extract_zero_size]

theorem size_append (first second : Text) : (first ++ second).size = first.size + second.size :=
  ByteArray.size_append

theorem byte?_append (first second : Text) (index : Nat) :
    (first ++ second).byte? index =
      if index < first.size then first.byte? index else second.byte? (index - first.size) := by
  have whole := size_append first second
  by_cases inside : index < (first ++ second).size
  · rw [byte?_eq_some_getElem inside]
    split
    · rename_i left
      rw [byte?_eq_some_getElem left]
      exact congrArg some (ByteArray.getElem_append_left left)
    · rename_i right
      rw [byte?_eq_some_getElem (show index - first.size < second.size by omega)]
      exact congrArg some (ByteArray.getElem_append_right (not_lt.mp right))
  · rw [byte?_eq_none.mpr (not_lt.mp inside), if_neg (by omega),
      byte?_eq_none.mpr (by omega)]

/-- A text is its bytes. -/
theorem ext_byte? {first second : Text} (same : ∀ index, first.byte? index = second.byte? index) :
    first = second := by
  have sizes : first.size = second.size := by
    apply le_antisymm
    · exact byte?_eq_none.mp ((same _).trans (byte?_eq_none.mpr le_rfl))
    · exact byte?_eq_none.mp ((same _).symm.trans (byte?_eq_none.mpr le_rfl))
  rcases first with ⟨first⟩
  rcases second with ⟨second⟩
  congr 1
  refine ByteArray.ext_getElem sizes fun index inFirst inSecond => ?_
  have here := same index
  rw [byte?_eq_some_getElem inFirst, byte?_eq_some_getElem inSecond] at here
  exact Option.some_injective _ here

/-! ### Boundaries -/

theorem isBoundary_iff {text : Text} {position : Nat} :
    text.isBoundary position = true ↔
      position = 0 ∨ position = text.size ∨
        ∃ byte, text.byte? position = some byte ∧ isContinuation byte = false := by
  unfold isBoundary
  rw [Bool.or_eq_true, Bool.or_eq_true, beq_iff_eq, beq_iff_eq, or_assoc]
  refine or_congr_right (or_congr_right ?_)
  cases text.byte? position <;> simp

@[simp]
theorem isBoundary_zero (text : Text) : text.isBoundary 0 = true := by
  simp [isBoundary]

@[simp]
theorem isBoundary_size (text : Text) : text.isBoundary text.size = true := by
  simp [isBoundary]

theorem le_size_of_isBoundary {text : Text} {position : Nat}
    (boundary : text.isBoundary position = true) : position ≤ text.size := by
  rcases isBoundary_iff.mp boundary with rfl | rfl | ⟨byte, here, _⟩
  · exact Nat.zero_le _
  · exact le_rfl
  · exact (byte?_isSome.mp (by rw [here]; rfl)).le

/-- A position inside of a text is a boundary or not by its byte. -/
theorem isBoundary_congr {first second : Text} {position other : Nat}
    (same : first.byte? position = second.byte? other) (inside : position < first.size)
    (starts : position = 0 ↔ other = 0) :
    first.isBoundary position = second.isBoundary other := by
  have insideToo : other < second.size := byte?_isSome.mp (same ▸ byte?_isSome.mpr inside)
  rw [Bool.eq_iff_iff, isBoundary_iff, isBoundary_iff, starts, same]
  simp only [inside.ne, insideToo.ne, false_or]

/-- The boundaries of a piece are those of the text. -/
theorem isBoundary_extract {text : Text} {start stop : Nat} (ordered : start ≤ stop)
    (starts : text.isBoundary start = true) (stops : text.isBoundary stop = true) (index : Nat) :
    (text.extract start stop).isBoundary index = true ↔
      start + index ≤ stop ∧ text.isBoundary (start + index) = true := by
  have within := le_size_of_isBoundary stops
  have size : (text.extract start stop).size = stop - start := by
    rw [size_extract, min_eq_left within]
  rw [isBoundary_iff, size, byte?_extract]
  constructor
  · rintro (rfl | rfl | ⟨byte, here, begins⟩)
    · exact ⟨by omega, starts⟩
    · rw [Nat.add_sub_cancel' ordered]
      exact ⟨le_rfl, stops⟩
    · split at here
      · exact ⟨by omega, isBoundary_iff.mpr (Or.inr (Or.inr ⟨byte, here, begins⟩))⟩
      · cases here
  · rintro ⟨inside, boundary⟩
    rcases isBoundary_iff.mp boundary with zero | last | ⟨byte, here, begins⟩
    · exact Or.inl (by omega)
    · exact Or.inr (Or.inl (by omega))
    · by_cases atEnd : start + index = stop
      · exact Or.inr (Or.inl (by omega))
      · rw [if_pos (by omega)]
        exact Or.inr (Or.inr ⟨byte, here, begins⟩)

/-! ### The nearest boundary -/

theorem isGreatest_floorFrom (text : Text) (position : Nat) :
    IsGreatest {boundary | text.isBoundary boundary = true ∧ boundary ≤ position}
      (text.floorFrom position) := by
  induction position with
  | zero => exact ⟨⟨isBoundary_zero text, le_rfl⟩, fun _ member => member.2⟩
  | succ position ih =>
    unfold floorFrom
    split
    · rename_i boundary
      exact ⟨⟨boundary, le_rfl⟩, fun _ member => member.2⟩
    · rename_i inner
      refine ⟨⟨ih.1.1, ih.1.2.trans (Nat.le_succ _)⟩, fun other member => ih.2 ⟨member.1, ?_⟩⟩
      rcases Nat.le_succ_iff.mp member.2 with below | equal
      · exact below
      · rw [equal] at member
        exact absurd member.1 inner

/-- The last boundary at or before a position. -/
theorem isGreatest_floor (text : Text) (position : Nat) :
    IsGreatest {boundary | text.isBoundary boundary = true ∧ boundary ≤ position}
      (text.floor position) := by
  have greatest := isGreatest_floorFrom text (min position text.size)
  refine ⟨⟨greatest.1.1, greatest.1.2.trans (min_le_left _ _)⟩, fun other member => ?_⟩
  exact greatest.2 ⟨member.1, le_min member.2 (le_size_of_isBoundary member.1)⟩

theorem isLeast_ceilFrom (text : Text) {position : Nat} (within : position ≤ text.size) :
    IsLeast {boundary | text.isBoundary boundary = true ∧ position ≤ boundary}
      (text.ceilFrom position) := by
  fun_induction ceilFrom text position with
  | case1 position inside boundary => exact ⟨⟨boundary, le_rfl⟩, fun _ member => member.2⟩
  | case2 position inside inner ih =>
    have rest := ih inside
    refine ⟨⟨rest.1.1, (Nat.le_succ _).trans rest.1.2⟩, fun other member => rest.2 ⟨member.1, ?_⟩⟩
    rcases member.2.lt_or_eq with below | equal
    · exact below
    · exact absurd (equal ▸ member.1) inner
  | case3 position outside =>
    have last : position = text.size := le_antisymm within (not_lt.mp outside)
    exact ⟨⟨last ▸ isBoundary_size text, le_rfl⟩, fun _ member => member.2⟩

/-- The first boundary at or after a position of the text. -/
theorem isLeast_ceil (text : Text) {position : Nat} (within : position ≤ text.size) :
    IsLeast {boundary | text.isBoundary boundary = true ∧ position ≤ boundary}
      (text.ceil position) := by
  rw [ceil, min_eq_left within]
  exact isLeast_ceilFrom text within

theorem ceil_of_size_le {text : Text} {position : Nat} (outside : text.size ≤ position) :
    text.ceil position = text.size := by
  have least := isLeast_ceilFrom text (le_refl text.size)
  rw [ceil, min_eq_right outside]
  exact le_antisymm (least.2 ⟨isBoundary_size text, le_rfl⟩) least.1.2

theorem isBoundary_ceil (text : Text) (position : Nat) :
    text.isBoundary (text.ceil position) = true := by
  rcases le_total position text.size with within | outside
  · exact (isLeast_ceil text within).1.1
  · rw [ceil_of_size_le outside]
    exact isBoundary_size text

theorem min_le_ceil (text : Text) (position : Nat) :
    min position text.size ≤ text.ceil position := by
  rcases le_total position text.size with within | outside
  · exact (min_le_left _ _).trans (isLeast_ceil text within).1.2
  · rw [ceil_of_size_le outside]
    exact min_le_right _ _

/-- The boundary behind the character at a position is the first one after it. -/
theorem isLeast_next (text : Text) {position : Nat} (inside : position < text.size) :
    IsLeast {boundary | text.isBoundary boundary = true ∧ position < boundary}
      (text.next position) := by
  rw [next, if_pos inside]
  exact isLeast_ceilFrom text inside

theorem isBoundary_next {text : Text} {position : Nat} (inside : position < text.size) :
    text.isBoundary (text.next position) = true := (isLeast_next text inside).1.1

theorem next_le {text : Text} {position boundary : Nat}
    (isBoundary : text.isBoundary boundary = true) (behind : position < boundary) :
    text.next position ≤ boundary :=
  (isLeast_next text (behind.trans_le (le_size_of_isBoundary isBoundary))).2 ⟨isBoundary, behind⟩

/-- The characters of a piece are those of the text. -/
theorem next_extract {text : Text} {start stop : Nat} (starts : text.isBoundary start = true)
    (stops : text.isBoundary stop = true) {index : Nat} (inside : start + index < stop) :
    start + (text.extract start stop).next index = text.next (start + index) := by
  have within := le_size_of_isBoundary stops
  have boundaries := isBoundary_extract (by omega) starts stops
  have size : (text.extract start stop).size = stop - start := by
    rw [size_extract, min_eq_left within]
  have piece := isLeast_next (text.extract start stop) (show index < _ by omega)
  have whole := isLeast_next text (show start + index < _ by omega)
  have reached := (boundaries _).mp piece.1.1
  have bound := whole.2 ⟨stops, inside⟩
  apply le_antisymm
  · have shifted : start + (text.next (start + index) - start) = text.next (start + index) := by
      have := whole.1.2
      omega
    have least : (text.extract start stop).next index ≤ text.next (start + index) - start := by
      refine piece.2 ⟨(boundaries _).mpr ⟨by omega, ?_⟩, ?_⟩
      · rw [shifted]
        exact whole.1.1
      · have := whole.1.2
        omega
    omega
  · exact whole.2 ⟨reached.2, by
      have := piece.1.2
      omega⟩

end Highlight.Text
