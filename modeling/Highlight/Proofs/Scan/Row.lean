/-
**Painting a row of styles.**

A token that begins where the row ends adds the styles of its bytes to the row, each byte having that
of the piece on top:

* `StyleRow.getElem?_set`, `StyleRow.getElem?_fill`: what filling a range does to every byte;
* `StyleRow.paint_append`, `StyleRow.stop_paint`: **what a token adds**, and where the row ends then.
-/

import Highlight.Proofs.Scan.Walk
import Highlight.Scan.Styles

namespace Highlight

namespace StyleRow

/-! ### Filling -/

/-- Setting a range changes the bytes of the range and no others. -/
theorem getElem?_set (style : StyleId) (first count : Nat) (styles : Array StyleId) (index : Nat) :
    (set style first count styles)[index]? =
      if first ≤ index ∧ index < first + count ∧ index < styles.size then some style
      else styles[index]? := by
  induction count generalizing first styles with
  | zero => rw [set, if_neg (by omega)]
  | succ count ih =>
    rw [set, ih, Array.size_setIfInBounds, Array.getElem?_setIfInBounds]
    by_cases inside : index < styles.size
    · rcases lt_trichotomy index first with before | rfl | behind
      · rw [if_neg (by omega), if_neg (by omega), if_neg (by omega)]
      · rw [if_neg (by omega), if_pos rfl, if_pos inside, if_pos (by omega)]
      · rw [if_neg (by omega : ¬ first = index)]
        by_cases reached : index < first + 1 + count
        · rw [if_pos (by omega), if_pos (by omega)]
        · rw [if_neg (by omega), if_neg (by omega)]
    · rw [if_neg (by omega), if_neg (c := first ≤ index ∧ _) (by omega),
        Array.getElem?_eq_none (not_lt.mp inside)]
      split
      · rw [if_neg (by omega)]
      · rfl

/-- Filling a range that begins in the row changes the bytes of the range and no others. -/
theorem getElem?_fill (row : StyleRow) {start stop : Nat} (style : StyleId)
    (behind : row.start ≤ start) (inside : start ≤ row.stop) (ordered : start < stop)
    (index : Nat) :
    (row.fill start stop style).styles[index]? =
      if start ≤ row.start + index ∧ row.start + index < stop then some style
      else row.styles[index]? := by
  unfold StyleRow.stop at inside
  unfold fill
  rw [if_neg (by omega), getElem?_set, Array.append_eq_append, Array.size_append,
    Array.size_replicate, Array.getElem?_append, Array.getElem?_replicate]
  by_cases filled : start ≤ row.start + index ∧ row.start + index < stop
  · rw [if_pos filled, if_pos (by omega)]
  · rw [if_neg filled, if_neg (by omega)]
    split
    · rfl
    · rw [if_neg (by omega), Array.getElem?_eq_none (by omega)]

theorem start_fill (row : StyleRow) (start stop : Nat) (style : StyleId) :
    (row.fill start stop style).start = row.start := by
  unfold fill
  split <;> rfl

/-- The row that goes on up to `stop` with the styles that `style` tells. -/
def extended (row : StyleRow) (stop : Nat) (style : Nat → StyleId) : StyleRow :=
  ⟨row.start, row.styles ++ ((List.range' row.stop (stop - row.stop)).map style).toArray⟩

theorem getElem?_extended (row : StyleRow) (stop : Nat) (style : Nat → StyleId) (index : Nat) :
    (row.extended stop style).styles[index]? =
      if index < row.styles.size then row.styles[index]?
      else if row.start + index < stop then some (style (row.start + index)) else none := by
  unfold extended
  rw [Array.getElem?_append]
  by_cases inRow : index < row.styles.size
  · rw [if_pos inRow, if_pos inRow]
  · rw [if_neg inRow, if_neg inRow]
    simp only [List.getElem?_toArray, List.getElem?_map]
    have place : row.stop + (index - row.styles.size) = row.start + index := by
      unfold StyleRow.stop
      omega
    by_cases filled : row.start + index < stop
    · rw [if_pos filled, List.getElem?_range' (by unfold StyleRow.stop; omega), Nat.one_mul, place]
      rfl
    · rw [if_neg filled, List.getElem?_eq_none (by
        rw [List.length_range']
        unfold StyleRow.stop
        omega)]
      rfl

theorem stop_extended (row : StyleRow) {stop : Nat} (style : Nat → StyleId)
    (ordered : row.stop ≤ stop) : (row.extended stop style).stop = stop := by
  unfold StyleRow.stop at ordered ⊢
  unfold extended StyleRow.stop
  simp only [Array.size_append, List.size_toArray, List.length_map, List.length_range']
  omega

theorem ext_getElem? {first second : StyleRow} (starts : first.start = second.start)
    (same : ∀ index : Nat, first.styles[index]? = second.styles[index]?) : first = second := by
  rcases first with ⟨start, styles⟩
  rcases second with ⟨start', styles'⟩
  rw [StyleRow.mk.injEq]
  exact ⟨starts, Array.ext_getElem? same⟩

/-- Filling the range right behind a row makes it longer. -/
theorem fill_behind (row : StyleRow) {stop : Nat} (style : StyleId) (ordered : row.stop < stop) :
    row.fill row.stop stop style = row.extended stop fun _ => style := by
  have behind : row.start ≤ row.stop := Nat.le_add_right _ _
  refine ext_getElem? (start_fill _ _ _ _) fun index => ?_
  rw [getElem?_fill row style behind le_rfl ordered, getElem?_extended]
  unfold StyleRow.stop
  by_cases inRow : index < row.styles.size
  · rw [if_neg (by omega), if_pos inRow]
  · rw [if_neg inRow]
    by_cases filled : row.start + index < stop
    · rw [if_pos (by omega), if_pos filled]
    · rw [if_neg (by omega), if_neg filled, Array.getElem?_eq_none (not_lt.mp inRow)]

/-- Filling a piece of what a row was made longer by lays the piece on top. -/
theorem fill_extended (row : StyleRow) {start stop bound : Nat} (style : Nat → StyleId)
    (value : StyleId) (behind : row.stop ≤ start) (ordered : start < stop) (inside : stop ≤ bound) :
    (row.extended bound style).fill start stop value =
      row.extended bound fun place => if start ≤ place ∧ place < stop then value else style place := by
  have whole := row.stop_extended style (show row.stop ≤ bound by omega)
  have first : (row.extended bound style).start = row.start := rfl
  have rowStart : row.start ≤ row.stop := Nat.le_add_right _ _
  refine ext_getElem? (start_fill _ _ _ _) fun index => ?_
  rw [getElem?_fill _ _ (by omega) (by omega) ordered, first, getElem?_extended, getElem?_extended]
  unfold StyleRow.stop at behind
  by_cases inRow : index < row.styles.size
  · rw [if_neg (by omega), if_pos inRow, if_pos inRow]
  · rw [if_neg inRow, if_neg inRow]
    by_cases filled : row.start + index < bound
    · rw [if_pos filled, if_pos filled]
      split <;> rfl
    · rw [if_neg filled, if_neg filled, if_neg (by omega)]

/-! ### Tokens -/

/-- The styles on top of a pile of pieces. -/
theorem foldl_fill (row : StyleRow) {bound : Nat} (pieces : List StyledSpan)
    (inside : ∀ piece ∈ pieces, row.stop ≤ piece.start ∧ piece.start < piece.stop ∧
      piece.stop ≤ bound) (style : Nat → StyleId) :
    pieces.foldl (fun row piece => row.fill piece.start piece.stop piece.style)
        (row.extended bound style) =
      row.extended bound fun place => StyledSpan.styleAt pieces (style place) place := by
  induction pieces generalizing style with
  | nil => rfl
  | cons piece rest ih =>
    obtain ⟨behind, ordered, within⟩ := inside piece List.mem_cons_self
    rw [List.foldl_cons, row.fill_extended style piece.style behind ordered within,
      ih fun other member => inside other (List.mem_cons_of_mem _ member)]
    rfl

end StyleRow

/-- A token that is a piece of the text, in which all its captures lie. -/
structure Token.Sound (token : Token) : Prop where
  ordered : token.start < token.stop
  captures : ∀ piece ∈ token.captures, token.start ≤ piece.start ∧ piece.start < piece.stop ∧
    piece.stop ≤ token.stop

namespace StyleRow

/-- **A token behind a row adds the styles of its bytes to the row.** -/
theorem paint_append (row : StyleRow) {token : Token} (sound : token.Sound)
    (behind : row.stop = token.start) :
    row.paint token = ⟨row.start, row.styles ++ token.styles.toArray⟩ := by
  have ordered := sound.ordered
  unfold paint
  rw [← behind, row.fill_behind token.style (behind ▸ ordered),
    row.foldl_fill token.captures fun piece member => behind ▸ sound.captures piece member]
  unfold extended Token.styles StyledSpan.styles
  rw [behind]

/-- The bytes before a token keep their styles, and those of the token get the ones under its captures. -/
theorem getElem?_paint (row : StyleRow) {token : Token} (sound : token.Sound)
    (behind : row.stop = token.start) {place : Nat} (first : row.start ≤ place)
    (last : place < token.stop) :
    (row.paint token).styles[place - row.start]? =
      if place < token.start then row.styles[place - row.start]?
      else some (StyledSpan.styleAt token.captures token.style place) := by
  rw [row.paint_append sound behind, Array.getElem?_append]
  unfold StyleRow.stop at behind
  by_cases before : place < token.start
  · rw [if_pos before, if_pos (by omega)]
  · rw [if_neg before, if_neg (by omega)]
    unfold Token.styles StyledSpan.styles
    rw [List.getElem?_toArray, List.getElem?_map, List.getElem?_range' (by omega), Option.map_some,
      Nat.one_mul]
    congr 2
    omega

/-- Then the row ends where the token does. -/
theorem stop_paint (row : StyleRow) {token : Token} (sound : token.Sound)
    (behind : row.stop = token.start) : (row.paint token).stop = token.stop := by
  have ordered := sound.ordered
  rw [row.paint_append sound behind]
  unfold stop at behind ⊢
  unfold Token.styles
  simp only [Array.size_append, List.size_toArray, StyledSpan.length_styles]
  omega

end StyleRow

end Highlight
