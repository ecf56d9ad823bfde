/-
**What replacing a piece of a text leaves as it was.**

An edit leaves the bytes before and behind it alone, and with them the boundaries between characters:

* `Text.Held`: the texts there are, which are UTF-8 and of a size that is a signed number as well;
* `Text.SameBefore`, `Text.SameFrom`: two texts that agree up to a boundary, or from one on;
* `Text.Edits`: an edit with the change it amounts to; `Text.edits_of_replace` finds the one behind a
  replacement, `Text.held_of_replace` says that its outcome is a text again;
* `Text.Edits.carry_behind`, `Text.Edits.carry_lt_carry`: a change carries the positions behind the
  edit along with their bytes.
-/

import Highlight.Proofs.Text.Boundary
import Highlight.Text.Change
import Mathlib.Algebra.Group.Nat.Defs

namespace Highlight

/-- A change that lengths make is one of the range they are given for. -/
theorem Change.range_of_ofLengths {start oldEnd inserted : Nat} {change : Change}
    (lengths : ofLengths start oldEnd inserted = .ok change) :
    change.start = start ∧ change.oldEnd = oldEnd := by
  unfold ofLengths at lengths
  simp only at lengths
  split at lengths
  · cases lengths
  · split at lengths
    · cases lengths
      exact ⟨rfl, rfl⟩
    · cases lengths

namespace Text

/-! ### UTF-8 -/

/-- Whether the bytes of a text are UTF-8. -/
def IsUtf8 (text : Text) : Prop := text.bytes.IsValidUTF8

/-- The texts there are: their bytes are UTF-8, and fewer than a signed number of 64 bits can tell. -/
structure Held (text : Text) : Prop where
  utf8 : text.IsUtf8
  size_lt : text.size < 2 ^ 63

theorem Held.size_lt_maxSize {text : Text} (held : text.Held) : text.size < maxSize := by
  have := held.size_lt
  unfold maxSize
  omega

theorem isUtf8_ofString (string : String) : (ofString string).IsUtf8 := string.isValidUTF8

theorem IsUtf8.append {first second : Text} (left : first.IsUtf8) (right : second.IsUtf8) :
    (first ++ second).IsUtf8 := ByteArray.IsValidUTF8.append left right

theorem isContinuation_of_lt {value : Nat} (small : value < 0x40) :
    isContinuation (UInt8.ofNat (value + 0x80)) = true := by
  have all : ∀ value : Fin 0x40, isContinuation (UInt8.ofNat (value + 0x80)) = true := by decide
  exact all ⟨value, small⟩

/-- Every byte of a character but the first one continues it. -/
theorem isContinuation_of_mem_tail {char : Char} {byte : UInt8}
    (member : byte ∈ (String.utf8EncodeChar char).tail) : isContinuation byte = true := by
  have small : ∀ value, value % 0x40 < 0x40 := fun _ => Nat.mod_lt _ (by decide)
  unfold String.utf8EncodeChar at member
  simp only at member
  split at member
  · cases member
  · split at member
    · simp only [List.tail_cons, List.mem_singleton] at member
      exact member ▸ isContinuation_of_lt (small _)
    · split at member
      · simp only [List.tail_cons, List.mem_cons, List.not_mem_nil, or_false] at member
        rcases member with rfl | rfl
        · exact isContinuation_of_lt (small _)
        · exact isContinuation_of_lt (small _)
      · simp only [List.tail_cons, List.mem_cons, List.not_mem_nil, or_false] at member
        rcases member with rfl | rfl | rfl
        · exact isContinuation_of_lt (small _)
        · exact isContinuation_of_lt (small _)
        · exact isContinuation_of_lt (small _)

/-- The characters before and behind a byte that begins one. -/
theorem exists_split_of_begins (chars : List Char) {position : Nat}
    (inside : position < (chars.flatMap String.utf8EncodeChar).length)
    (begins : isContinuation (chars.flatMap String.utf8EncodeChar)[position] = false) :
    ∃ front back, chars = front ++ back ∧
      (front.flatMap String.utf8EncodeChar).length = position := by
  induction chars generalizing position with
  | nil => simp at inside
  | cons char rest ih =>
    by_cases first : position < (String.utf8EncodeChar char).length
    · rcases Nat.eq_zero_or_pos position with rfl | positive
      · exact ⟨[], char :: rest, rfl, rfl⟩
      · have here : (List.flatMap String.utf8EncodeChar (char :: rest))[position] =
            (String.utf8EncodeChar char)[position] := by
          simp only [List.flatMap_cons]
          rw [List.getElem_append_left first]
        have continues : isContinuation (String.utf8EncodeChar char)[position] = true := by
          have inTail : (String.utf8EncodeChar char)[position] ∈
              (String.utf8EncodeChar char).tail := by
            refine List.mem_iff_getElem.mpr ⟨position - 1, ?_, ?_⟩
            · rw [List.length_tail]
              omega
            · rw [List.getElem_tail]
              congr 1
              omega
          exact isContinuation_of_mem_tail inTail
        rw [here, continues] at begins
        cases begins
    · have later : position - (String.utf8EncodeChar char).length <
          (rest.flatMap String.utf8EncodeChar).length := by
        simp only [List.flatMap_cons, List.length_append] at inside
        omega
      obtain ⟨front, back, rfl, width⟩ := ih later (by
        simp only [List.flatMap_cons] at begins
        rwa [List.getElem_append_right (not_lt.mp first)] at begins)
      refine ⟨char :: front, back, rfl, ?_⟩
      simp only [List.flatMap_cons, List.length_append]
      omega

/-- A text is UTF-8 before and behind each of its boundaries. -/
theorem IsUtf8.split {text : Text} (utf8 : text.IsUtf8) {position : Nat}
    (boundary : text.isBoundary position = true) :
    (text.extract 0 position).IsUtf8 ∧ (text.extract position text.size).IsUtf8 := by
  have within := le_size_of_isBoundary boundary
  rcases isBoundary_iff.mp boundary with rfl | rfl | ⟨byte, here, begins⟩
  · refine ⟨?_, by rwa [extract_zero_size]⟩
    show (text.bytes.extract 0 0).IsValidUTF8
    rw [ByteArray.extract_same]
    exact ByteArray.isValidUTF8_empty
  · refine ⟨by rwa [extract_zero_size], ?_⟩
    show (text.bytes.extract text.size text.size).IsValidUTF8
    rw [ByteArray.extract_same]
    exact ByteArray.isValidUTF8_empty
  · obtain ⟨chars, encoded⟩ := utf8
    have bytes : text.bytes = (chars.flatMap String.utf8EncodeChar).toByteArray := encoded
    have inside : position < text.size := byte?_isSome.mp (by rw [here]; rfl)
    have length : (chars.flatMap String.utf8EncodeChar).length = text.size := by
      rw [size, bytes, List.size_toByteArray]
    have value : (chars.flatMap String.utf8EncodeChar)[position] = byte := by
      rw [byte?_eq_some_getElem inside, Option.some_inj] at here
      rw [← here, List.getElem_eq_getElem_toByteArray]
      simp only [bytes]
    obtain ⟨front, back, rfl, width⟩ := exists_split_of_begins chars (by omega)
      (value.symm ▸ begins)
    have parts : text.bytes = front.utf8Encode ++ back.utf8Encode := by
      rw [encoded, List.utf8Encode_append]
    have frontSize : front.utf8Encode.size = position := by
      rw [← width]
      exact List.size_toByteArray
    constructor
    · refine ⟨front, ?_⟩
      show text.bytes.extract 0 position = _
      rw [parts, ← frontSize, ByteArray.extract_append_eq_left rfl]
    · refine ⟨back, ?_⟩
      show text.bytes.extract position text.bytes.size = _
      rw [parts]
      exact ByteArray.extract_append_eq_right frontSize.symm ByteArray.size_append

/-! ### Texts that agree in part -/

/-- Two texts have the same bytes up to a boundary of both. -/
structure SameBefore (first second : Text) (stop : Nat) : Prop where
  bytes : ∀ index < stop, first.byte? index = second.byte? index
  left : first.isBoundary stop = true
  right : second.isBoundary stop = true

/-- One text goes on from a boundary as another one does from one of its own. -/
structure SameFrom (first : Text) (start : Nat) (second : Text) (other : Nat) : Prop where
  bytes : ∀ index, first.byte? (start + index) = second.byte? (other + index)
  left : first.isBoundary start = true
  right : second.isBoundary other = true

namespace SameBefore

variable {first second third : Text} {stop : Nat}

theorem isBoundary_eq (same : SameBefore first second stop) {position : Nat}
    (before : position ≤ stop) : first.isBoundary position = second.isBoundary position := by
  rcases before.lt_or_eq with below | rfl
  · have inside := below.trans_le (le_size_of_isBoundary same.left)
    exact isBoundary_congr (same.bytes position below) inside Iff.rfl
  · rw [same.left, same.right]

theorem next_eq (same : SameBefore first second stop) {position : Nat} (before : position < stop) :
    first.next position = second.next position := by
  have inFirst := isLeast_next first (before.trans_le (le_size_of_isBoundary same.left))
  have inSecond := isLeast_next second (before.trans_le (le_size_of_isBoundary same.right))
  have firstBound := next_le same.left before
  have secondBound := next_le same.right before
  apply le_antisymm
  · exact inFirst.2 ⟨(same.isBoundary_eq secondBound).trans inSecond.1.1, inSecond.1.2⟩
  · exact inSecond.2 ⟨(same.isBoundary_eq firstBound).symm.trans inFirst.1.1, inFirst.1.2⟩

/-- Agreeing up to one boundary and then to another one is agreeing up to the smaller one. -/
theorem trans {other : Nat} (same : SameBefore first second stop)
    (further : SameBefore second third other) : SameBefore first third (min stop other) := by
  refine ⟨fun index below => ?_, ?_, ?_⟩
  · exact (same.bytes index (below.trans_le (min_le_left _ _))).trans
      (further.bytes index (below.trans_le (min_le_right _ _)))
  · rcases le_total stop other with before | behind
    · rw [min_eq_left before]
      exact same.left
    · rw [min_eq_right behind, same.isBoundary_eq behind]
      exact further.left
  · rcases le_total stop other with before | behind
    · rw [min_eq_left before, ← further.isBoundary_eq before]
      exact same.right
    · rw [min_eq_right behind]
      exact further.right

end SameBefore

namespace SameFrom

variable {first second : Text} {start other : Nat}

/-- Both texts go on equally long. -/
theorem size_add (same : SameFrom first start second other) :
    first.size + other = second.size + start := by
  have firstStart := le_size_of_isBoundary same.left
  have secondStart := le_size_of_isBoundary same.right
  have forward := byte?_eq_none.mp
    ((same.bytes (first.size - start)).symm.trans (byte?_eq_none.mpr (by omega)))
  have backward := byte?_eq_none.mp
    ((same.bytes (second.size - other)).trans (byte?_eq_none.mpr (by omega)))
  omega

theorem isBoundary_eq (same : SameFrom first start second other) (index : Nat) :
    first.isBoundary (start + index) = second.isBoundary (other + index) := by
  have sizes := same.size_add
  rcases Nat.eq_zero_or_pos index with rfl | positive
  · rw [Nat.add_zero, Nat.add_zero, same.left, same.right]
  · rcases lt_trichotomy (start + index) first.size with inside | last | outside
    · exact isBoundary_congr (same.bytes index) inside (by omega)
    · rw [last, show other + index = second.size by omega, isBoundary_size, isBoundary_size]
    · rw [Bool.eq_iff_iff]
      constructor
      · intro boundary
        exact absurd (le_size_of_isBoundary boundary) (by omega)
      · intro boundary
        exact absurd (le_size_of_isBoundary boundary) (by omega)

theorem next_eq (same : SameFrom first start second other) {index : Nat}
    (inside : start + index < first.size) :
    first.next (start + index) + other = second.next (other + index) + start := by
  have sizes := same.size_add
  have inFirst := isLeast_next first inside
  have inSecond := isLeast_next second (show other + index < _ by omega)
  have firstBehind := inFirst.1.2
  have secondBehind := inSecond.1.2
  have forward : second.next (other + index) ≤ other + (first.next (start + index) - start) := by
    refine inSecond.2 ⟨?_, by omega⟩
    rw [← same.isBoundary_eq, Nat.add_sub_cancel' (by omega)]
    exact inFirst.1.1
  have backward : first.next (start + index) ≤ start + (second.next (other + index) - other) := by
    refine inFirst.2 ⟨?_, by omega⟩
    rw [same.isBoundary_eq, Nat.add_sub_cancel' (by omega)]
    exact inSecond.1.1
  omega

end SameFrom

/-! ### Edits -/

theorem size_splice {text : Text} {start stop : Nat} (ordered : start ≤ stop)
    (within : stop ≤ text.size) (inserted : Text) :
    (text.splice start stop inserted).size = start + inserted.size + (text.size - stop) := by
  show ((text.extract 0 start ++ inserted) ++ text.extract stop text.size).size = _
  rw [size_append, size_append, size_extract, size_extract]
  omega

theorem byte?_splice_of_lt {text : Text} {start stop : Nat} (ordered : start ≤ stop)
    (within : stop ≤ text.size) (inserted : Text) {index : Nat} (before : index < start) :
    (text.splice start stop inserted).byte? index = text.byte? index := by
  have front : (text.extract 0 start).size = start := by
    rw [size_extract]
    omega
  have longer : index < (text.extract 0 start ++ inserted).size := by
    rw [size_append]
    omega
  rw [splice, byte?_append, if_pos longer, byte?_append, if_pos (by omega), byte?_extract,
    if_pos (by omega), Nat.zero_add]

theorem byte?_splice_add {text : Text} {start stop : Nat} (ordered : start ≤ stop)
    (within : stop ≤ text.size) (inserted : Text) (index : Nat) :
    (text.splice start stop inserted).byte? (start + inserted.size + index) =
      text.byte? (stop + index) := by
  have front : (text.extract 0 start ++ inserted).size = start + inserted.size := by
    rw [size_append, size_extract]
    omega
  rw [splice, byte?_append, if_neg (by omega), front, Nat.add_sub_cancel_left, byte?_extract]
  split
  · rfl
  · exact (byte?_eq_none.mpr (by omega)).symm

/-- The first byte of a text begins a character. -/
theorem IsUtf8.begins {text : Text} (utf8 : text.IsUtf8) {byte : UInt8}
    (here : text.byte? 0 = some byte) : isContinuation byte = false := by
  have first : ∀ value : Fin 256, (UInt8.ofNat value).IsUTF8FirstByte →
      isContinuation (UInt8.ofNat value) = false := by decide +kernel
  have inside : 0 < text.size := byte?_isSome.mp (by rw [here]; rfl)
  have leads := ByteArray.IsValidUTF8.isUTF8FirstByte_getElem_zero utf8 inside
  rw [byte?_eq_some_getElem inside, Option.some_inj] at here
  rw [here] at leads
  have value := first ⟨byte.toNat, byte.toNat_lt⟩
  rw [UInt8.ofNat_toNat] at value
  exact value leads

theorem append_assoc (first second third : Text) :
    first ++ second ++ third = first ++ (second ++ third) := by
  rcases first with ⟨first⟩
  rcases second with ⟨second⟩
  rcases third with ⟨third⟩
  show Text.mk (first ++ second ++ third) = ⟨first ++ (second ++ third)⟩
  rw [ByteArray.append_assoc]

/-- Where a text begins behind another one is a boundary. -/
theorem isBoundary_append (first : Text) {second : Text} (utf8 : second.IsUtf8) :
    (first ++ second).isBoundary first.size = true := by
  have sizes := size_append first second
  rw [isBoundary_iff]
  rcases Nat.eq_zero_or_pos second.size with none | positive
  · exact Or.inr (Or.inl (by omega))
  · obtain ⟨byte, here⟩ := Option.isSome_iff_exists.mp (byte?_isSome.mpr positive)
    refine Or.inr (Or.inr ⟨byte, ?_, utf8.begins here⟩)
    rw [byte?_append, if_neg (lt_irrefl _), Nat.sub_self]
    exact here

/-- A character has four bytes at most. -/
theorem IsUtf8.next_le_add_four {text : Text} (utf8 : text.IsUtf8) {position : Nat}
    (boundary : text.isBoundary position = true) (inside : position < text.size) :
    text.next position ≤ position + 4 := by
  obtain ⟨chars, encoded⟩ := (utf8.split boundary).2
  have sizes : (text.extract position text.size).size = text.size - position := by
    rw [size_extract, min_self]
  cases chars with
  | nil =>
    have empty : (text.extract position text.size).size = 0 := by
      rw [size, encoded]
      rfl
    omega
  | cons char rest =>
    have parts : text.extract position text.size = ⟨[char].utf8Encode⟩ ++ ⟨rest.utf8Encode⟩ := by
      show Text.mk (text.extract position text.size).bytes = ⟨[char].utf8Encode ++ rest.utf8Encode⟩
      rw [encoded, ← List.utf8Encode_append, List.singleton_append]
    have width : (Text.mk [char].utf8Encode).size = char.utf8Size := by
      show (List.toByteArray _).size = _
      rw [List.size_toByteArray]
      simp
    have utf8 : (Text.mk rest.utf8Encode).IsUtf8 := ⟨rest, rfl⟩
    have behind := isBoundary_append ⟨[char].utf8Encode⟩ utf8
    rw [← parts, width, isBoundary_extract (by omega) boundary (isBoundary_size text)] at behind
    have positive := char.utf8Size_pos
    have four := char.utf8Size_le_four
    exact (next_le behind.2 (by omega)).trans (by omega)

/-- Between a position and the boundary before it there is no other boundary. -/
theorem lt_next_floor (text : Text) {position : Nat} (inside : text.floor position < text.size) :
    position < text.next (text.floor position) := by
  by_contra short
  have greatest := (isGreatest_floor text position).2 ⟨isBoundary_next inside, not_lt.mp short⟩
  exact absurd greatest (text.lt_next _).not_ge

/-- A boundary is found within three bytes before any position of a text. -/
theorem IsUtf8.le_floor_add_three {text : Text} (utf8 : text.IsUtf8) {position : Nat}
    (within : position ≤ text.size) : position ≤ text.floor position + 3 := by
  obtain ⟨⟨boundary, before⟩, -⟩ := isGreatest_floor text position
  rcases before.lt_or_eq with further | same
  · have inside : text.floor position < text.size := further.trans_le within
    have passed := text.lt_next_floor inside
    have := utf8.next_le_add_four boundary inside
    omega
  · omega

/-- A boundary is found within three bytes of any position. -/
theorem IsUtf8.ceil_le_add_three {text : Text} (utf8 : text.IsUtf8) (position : Nat) :
    text.ceil position ≤ position + 3 := by
  rcases le_total text.size position with outside | within
  · rw [ceil_of_size_le outside]
    omega
  · obtain ⟨⟨boundary, before⟩, -⟩ := isGreatest_floor text position
    rcases before.lt_or_eq with further | same
    · have inside : text.floor position < text.size := further.trans_le within
      have passed := text.lt_next_floor inside
      have least := (isLeast_ceil text within).2 ⟨isBoundary_next inside, passed.le⟩
      have := utf8.next_le_add_four boundary inside
      omega
    · rw [same] at boundary
      have least := (isLeast_ceil text within).2 ⟨boundary, le_rfl⟩
      omega

/-- The text between two boundaries, with another one in its place, is UTF-8, and it has boundaries
before and behind what is new. -/
theorem splice_spec {text : Text} (utf8 : text.IsUtf8) {start stop : Nat}
    (starts : text.isBoundary start = true) (stops : text.isBoundary stop = true)
    {inserted : Text} (new : inserted.IsUtf8) :
    (text.splice start stop inserted).IsUtf8 ∧
      (text.splice start stop inserted).isBoundary start = true ∧
      (text.splice start stop inserted).isBoundary (start + inserted.size) = true := by
  have front := (utf8.split starts).1
  have back := (utf8.split stops).2
  have frontSize : (text.extract 0 start).size = start := by
    have := le_size_of_isBoundary starts
    rw [size_extract]
    omega
  have assoc : text.splice start stop inserted =
      text.extract 0 start ++ (inserted ++ text.extract stop text.size) := by
    rw [splice, append_assoc]
  refine ⟨?_, ?_, ?_⟩
  · rw [assoc]
    exact front.append (new.append back)
  · have boundary := isBoundary_append (text.extract 0 start) (new.append back)
    rwa [← assoc, frontSize] at boundary
  · have boundary := isBoundary_append (text.extract 0 start ++ inserted) back
    have whole : (text.extract 0 start ++ inserted).size = start + inserted.size := by
      rw [size_append]
      omega
    rwa [whole, ← splice] at boundary

/-- The change that an edit of one text into another one amounts to. -/
structure Edits (before after : Text) (change : Change) : Prop where
  ordered : change.start ≤ change.oldEnd
  front : SameBefore before after change.start
  back : SameFrom before change.oldEnd after change.newEnd
  newEnd : change.start ≤ change.newEnd
  delta : (before.size : Int) + change.delta = after.size
  after_lt : after.size < 2 ^ 63

/-- A size that fits as a signed number is that number. -/
theorem signed_eq {size : Nat} (small : size < 2 ^ 63) : Change.signed size = size := by
  unfold Change.signed
  rw [Int.bmod_eq_of_le] <;> omega

/-- What a replacement amounts to. -/
theorem replace_eq_ok {text after : Text} {start stop : Nat} {inserted : String} {change : Change}
    (replaced : text.replace start stop inserted = .ok (after, change)) :
    start ≤ stop ∧ text.isBoundary start = true ∧ text.isBoundary stop = true ∧
      after = text.splice start stop (ofString inserted) ∧
      Change.ofLengths start stop (ofString inserted).size = .ok change := by
  unfold replace at replaced
  by_cases inText : start ≤ stop ∧ stop ≤ text.size
  · by_cases slice : text.isSlice start stop = true
    · simp only [inText, slice, not_true_eq_false, if_false, bind, Except.bind, and_self, pure,
        Except.pure] at replaced
      cases lengths : Change.ofLengths start stop (ofString inserted).size with
      | error fault =>
        rw [lengths] at replaced
        cases replaced
      | ok found =>
        rw [lengths] at replaced
        cases replaced
        unfold isSlice at slice
        rw [Bool.and_eq_true, Bool.and_eq_true] at slice
        exact ⟨inText.1, slice.1.2, slice.2, rfl, rfl⟩
    · simp [inText, slice, bind, Except.bind, throw, throwThe, MonadExceptOf.throw] at replaced
  · simp [inText, bind, Except.bind, throw, throwThe, MonadExceptOf.throw] at replaced

/-- A replacement between characters goes well if the lengths are in range. -/
theorem replace_of_isSlice {text : Text} {start stop : Nat} {inserted : String} {change : Change}
    (ordered : start ≤ stop ∧ stop ≤ text.size) (isSlice : text.isSlice start stop = true)
    (lengths : Change.ofLengths start stop (ofString inserted).size = .ok change) :
    text.replace start stop inserted =
      .ok (text.splice start stop (ofString inserted), change) := by
  unfold replace
  simp only [ordered, isSlice, lengths, not_true_eq_false, if_false, bind, Except.bind, and_self,
    pure, Except.pure]

/-- A single byte can be put before any text. -/
theorem replace_start (text : Text) {inserted : String} (single : (ofString inserted).size = 1) :
    text.replace 0 0 inserted = .ok (text.splice 0 0 (ofString inserted), ⟨0, 0, 1⟩) := by
  have isSlice : text.isSlice 0 0 = true := by simp [Text.isSlice]
  have lengths : Change.ofLengths 0 0 1 = .ok ⟨0, 0, 1⟩ := by rfl
  exact replace_of_isSlice ⟨le_rfl, Nat.zero_le _⟩ isSlice (single ▸ lengths)

/-- A replacement between characters goes well if its outcome can be held. -/
theorem exists_replace_of_isSlice {text : Text} {start stop : Nat} {inserted : String}
    (held : text.Held) (isSlice : text.isSlice start stop = true)
    (small : (text.splice start stop (ofString inserted)).size < 2 ^ 63) :
    ∃ change, text.replace start stop inserted =
      .ok (text.splice start stop (ofString inserted), change) := by
  have parts := isSlice
  unfold Text.isSlice at parts
  rw [Bool.and_eq_true, Bool.and_eq_true, decide_eq_true_eq] at parts
  obtain ⟨⟨ordered, -⟩, stops⟩ := parts
  have within := le_size_of_isBoundary stops
  have textSize := held.size_lt
  have size := size_splice ordered within (ofString inserted)
  have removed : Change.signed (stop - start) = ((stop - start : Nat) : Int) :=
    signed_eq (by omega)
  have added : Change.signed (ofString inserted).size = (ofString inserted).size :=
    signed_eq (by omega)
  have lengths : Change.ofLengths start stop (ofString inserted).size =
      .ok ⟨start, stop, ((ofString inserted).size : Int) - ((stop - start : Nat) : Int)⟩ := by
    unfold Change.ofLengths
    simp only [not_lt.mpr ordered, if_false, removed, added]
    exact if_pos (by omega)
  exact ⟨_, replace_of_isSlice ⟨ordered, within⟩ isSlice lengths⟩

/-- A replacement whose outcome can be held is an edit. -/
theorem edits_of_replace {text after : Text} {start stop : Nat} {inserted : String}
    {change : Change} (held : text.Held) (small : after.size < 2 ^ 63)
    (replaced : text.replace start stop inserted = .ok (after, change)) :
    Edits text after change := by
  obtain ⟨ordered, starts, stops, rfl, lengths⟩ := replace_eq_ok replaced
  obtain ⟨-, front, back⟩ := splice_spec held.utf8 starts stops (isUtf8_ofString inserted)
  have within := le_size_of_isBoundary stops
  have textSize := held.size_lt
  have size := size_splice ordered within (ofString inserted)
  have removed : Change.signed (stop - start) = ((stop - start : Nat) : Int) :=
    signed_eq (by omega)
  have added : Change.signed (ofString inserted).size = (ofString inserted).size :=
    signed_eq (by omega)
  unfold Change.ofLengths at lengths
  simp only [not_lt.mpr ordered, if_false, removed, added] at lengths
  rw [if_pos (by omega)] at lengths
  cases lengths
  have newEnd : (Change.newEnd ⟨start, stop, ((ofString inserted).size : Int) -
      ((stop - start : Nat) : Int)⟩) = start + (ofString inserted).size := by
    unfold Change.newEnd shifted maxSize
    simp only
    omega
  refine ⟨ordered, ⟨?_, starts, ?_⟩, ⟨?_, stops, ?_⟩, ?_, ?_, small⟩
  · intro index below
    exact (byte?_splice_of_lt ordered within _ below).symm
  · exact front
  · intro index
    simp only
    rw [newEnd]
    exact (byte?_splice_add ordered within _ index).symm
  · rw [newEnd]
    exact back
  · rw [newEnd]
    exact Nat.le_add_right _ _
  · simp only
    omega

/-- What is before some place in a text may be put before what is like the rest in another one. -/
theorem splice_of_sameFrom {first second : Text} {start place : Nat}
    (same : SameFrom first start second place) :
    first.splice 0 start (second.extract 0 place) = second := by
  have within := le_size_of_isBoundary same.left
  have withinToo := le_size_of_isBoundary same.right
  have none : (first.extract 0 0).size = 0 := by
    rw [size_extract]
    omega
  have size : (second.extract 0 place).size = place := by
    rw [size_extract]
    omega
  have whole : (first.extract 0 0 ++ second.extract 0 place).size = place := by
    rw [size_append]
    omega
  apply ext_byte?
  intro index
  rcases lt_or_ge index place with inFront | behind
  · rw [splice, byte?_append, if_pos (by omega), byte?_append, if_neg (by omega), none, byte?_extract,
      Nat.sub_zero, Nat.zero_add, if_pos inFront]
  · have beyond := byte?_splice_add (Nat.zero_le start) within (second.extract 0 place) (index - place)
    rw [size, same.bytes, Nat.zero_add, Nat.add_sub_cancel' behind] at beyond
    exact beyond

/-- One of two texts that go on in the same way can be edited so that it becomes the other one. -/
theorem exists_replace_of_sameFrom {first second : Text} {start place : Nat} (held : first.Held)
    (heldToo : second.Held) (same : SameFrom first start second place) :
    ∃ inserted change, first.replace 0 start inserted = .ok (second, change) ∧
      change.newEnd = place := by
  have within := le_size_of_isBoundary same.left
  have withinToo := le_size_of_isBoundary same.right
  have small := held.size_lt
  have smallToo := heldToo.size_lt
  have utf8 : (second.extract 0 place).IsUtf8 := (heldToo.utf8.split same.right).1
  have front : ofString (String.fromUTF8 _ utf8) = second.extract 0 place := rfl
  have size : (second.extract 0 place).size = place := by
    rw [size_extract]
    omega
  have lengths : Change.ofLengths 0 start place = .ok ⟨0, start, (place : Int) - start⟩ := by
    unfold Change.ofLengths
    rw [if_neg (Nat.not_lt_zero _), Nat.sub_zero, signed_eq (by omega), signed_eq (by omega)]
    exact if_pos (by omega)
  have isSlice : first.isSlice 0 start = true := by
    unfold isSlice
    rw [isBoundary_zero, same.left, decide_eq_true (Nat.zero_le _)]
    rfl
  refine ⟨String.fromUTF8 _ utf8, ⟨0, start, (place : Int) - start⟩, ?_, ?_⟩
  · rw [replace_of_isSlice ⟨Nat.zero_le _, within⟩ isSlice (by rw [front, size]; exact lengths),
      front, splice_of_sameFrom same]
  · unfold Change.newEnd shifted maxSize
    simp only
    omega

/-- The outcome of an edit is a text again. -/
theorem held_of_replace {text after : Text} {start stop : Nat} {inserted : String}
    {change : Change} (held : text.Held) (small : after.size < 2 ^ 63)
    (replaced : text.replace start stop inserted = .ok (after, change)) : after.Held := by
  obtain ⟨-, starts, stops, rfl, -⟩ := replace_eq_ok replaced
  exact ⟨(splice_spec held.utf8 starts stops (isUtf8_ofString inserted)).1, small⟩

namespace Edits

variable {before after : Text} {change : Change}

/-- The sizes before and after an edit differ by the sizes of what is old and new. -/
theorem size_add (edits : Edits before after change) :
    before.size + change.newEnd = after.size + change.oldEnd := edits.back.size_add

/-- A position behind the edit moves along with the end of the edit. -/
theorem carry_behind (edits : Edits before after change) {position : Nat}
    (behind : change.oldEnd ≤ position) (inside : position ≤ before.size) :
    change.carry position + change.oldEnd = position + change.newEnd := by
  have sizes := edits.size_add
  have delta := edits.delta
  have small := edits.after_lt
  unfold Change.carry shifted maxSize
  rw [if_pos behind]
  omega

/-- A position before the edit stays. -/
theorem carry_before (_edits : Edits before after change) {position : Nat}
    (inFront : position ≤ change.start) (notEnd : position < change.oldEnd) :
    change.carry position = position := by
  unfold Change.carry
  rw [if_neg (by omega), if_neg (by omega)]

/-- A position is carried to one of the new text. -/
theorem carry_le_size (edits : Edits before after change) {position : Nat}
    (inside : position ≤ before.size) : change.carry position ≤ after.size := by
  have sizes := edits.size_add
  have newEnd := edits.newEnd
  have removed := le_size_of_isBoundary edits.back.left
  by_cases behind : change.oldEnd ≤ position
  · have moved := edits.carry_behind behind inside
    omega
  · unfold Change.carry
    rw [if_neg behind]
    split <;> omega

/-- What is before an edit and before where a position is carried to is before the position. -/
theorem le_of_le_carry (edits : Edits before after change) {bound position : Nat}
    (inFront : bound ≤ change.start) (carried : bound ≤ change.carry position) :
    bound ≤ position := by
  by_contra behind
  have ordered := edits.ordered
  rw [edits.carry_before (by omega) (by omega)] at carried
  exact behind carried

/-- Positions behind the edit keep their order. -/
theorem carry_lt_carry (edits : Edits before after change) {position other : Nat}
    (behind : change.oldEnd ≤ position) (inside : position ≤ before.size)
    (ordered : position < other) : change.carry position < change.carry other := by
  have moved := edits.carry_behind behind inside
  have sizes := edits.size_add
  have delta := edits.delta
  have small := edits.after_lt
  have stays : (other : Int) + change.delta > change.carry position := by omega
  have bound : change.carry position < maxSize := by
    unfold maxSize
    omega
  unfold Change.carry
  rw [if_pos (behind.trans ordered.le), if_pos behind]
  unfold Change.carry at moved stays bound
  rw [if_pos behind] at moved stays bound
  unfold shifted at *
  omega

end Edits

end Text

end Highlight
