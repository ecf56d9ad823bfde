/-
**Text as bytes, and the positions in it.**

A text is its UTF-8 bytes and a position is a byte offset. A position is a character boundary if it
is the start or the end of the text or if the byte there does not continue a character:

* `Text.floor`, `Text.ceil`: the nearest boundary at or before, at or after a position, the position
  being cut to the text first;
* `Text.slice`: the bytes between two boundaries; anything else is a fault;
* `Text.isLineStart`, `Text.isLineEnd`: whether a line begins or ends at a position, a line feed
  being what separates lines.
-/

import Highlight.Fault

namespace Highlight

/-- A text, as its UTF-8 bytes. -/
structure Text where
  bytes : ByteArray
  deriving Inhabited

instance : DecidableEq Text := fun first second =>
  match ByteArray.instDecidableEq first.bytes second.bytes with
  | isTrue same => isTrue (congrArg Text.mk same)
  | isFalse other => isFalse fun same => other (congrArg Text.bytes same)

namespace Text

/-- The byte that separates lines. -/
def lineFeed : UInt8 := 10

/-- Whether a byte continues a character that an earlier byte began. -/
def isContinuation (byte : UInt8) : Bool := byte &&& 0xC0 == 0x80

/-- The text without bytes. -/
def empty : Text := ⟨ByteArray.empty⟩

/-- The text of a string. -/
def ofString (string : String) : Text := ⟨string.toUTF8⟩

/-- The string of a text, empty if the bytes are not UTF-8. -/
def toString (text : Text) : String := (String.fromUTF8? text.bytes).getD ""

/-- Number of bytes. -/
@[inline] def size (text : Text) : Nat := text.bytes.size

/-- The byte at a position. -/
@[inline] def byte? (text : Text) (position : Nat) : Option UInt8 :=
  if h : position < text.bytes.size then some text.bytes[position] else none

/-- The byte at a position, zero behind the end. -/
@[inline] def byteAt (text : Text) (position : Nat) : UInt8 :=
  if h : position < text.bytes.size then text.bytes[position] else 0

/-- Whether a character begins or the text ends at a position. -/
def isBoundary (text : Text) (position : Nat) : Bool :=
  position == 0 || position == text.size ||
    match text.byte? position with
    | some byte => !isContinuation byte
    | none => false

/-- Whether a line begins at a position; the start of the text counts. -/
def isLineStart (text : Text) (position : Nat) : Bool :=
  position == 0 || text.byte? (position - 1) == some lineFeed

/-- Whether a line ends at a position; the end of the text counts. -/
def isLineEnd (text : Text) (position : Nat) : Bool :=
  text.size ≤ position || text.byte? position == some lineFeed

/-- Largest boundary at or before `position`, for a position inside the text. -/
def floorFrom (text : Text) : Nat → Nat
  | 0 => 0
  | position + 1 =>
    if text.isBoundary (position + 1) then position + 1 else floorFrom text position

/-- Smallest boundary at or after `position`, for a position inside the text. -/
def ceilFrom (text : Text) (position : Nat) : Nat :=
  if position < text.size then
    if text.isBoundary position then position else ceilFrom text (position + 1)
  else position
termination_by text.size - position

/-- Largest boundary at or before `position`. -/
def floor (text : Text) (position : Nat) : Nat := floorFrom text (min position text.size)

/-- Smallest boundary at or after `position`, the end of the text if there is none. -/
def ceil (text : Text) (position : Nat) : Nat := ceilFrom text (min position text.size)

/-- The boundary behind the character at `position`; one byte on where the text ends. -/
def next (text : Text) (position : Nat) : Nat :=
  if position < text.size then ceilFrom text (position + 1) else position + 1

theorem le_ceilFrom (text : Text) (position : Nat) : position ≤ text.ceilFrom position := by
  fun_induction ceilFrom text position with
  | case1 => exact Nat.le_refl _
  | case2 _ _ _ step => exact Nat.le_of_succ_le step
  | case3 => exact Nat.le_refl _

theorem lt_next (text : Text) (position : Nat) : position < text.next position := by
  unfold next
  split
  · exact le_ceilFrom text (position + 1)
  · exact Nat.lt_succ_self position

/-- The bytes `[start, stop)`. -/
def extract (text : Text) (start stop : Nat) : Text := ⟨text.bytes.extract start stop⟩

/-- Whether `[start, stop)` is a piece of the text that begins and ends between characters. -/
def isSlice (text : Text) (start stop : Nat) : Bool :=
  decide (start ≤ stop) && text.isBoundary start && text.isBoundary stop

/-- The piece `[start, stop)`, if it is one. -/
def slice? (text : Text) (start stop : Nat) : Option Text :=
  if text.isSlice start stop then some (text.extract start stop) else none

/-- The piece `[start, stop)`. -/
def slice (text : Text) (start stop : Nat) : Except Fault Text :=
  if text.isSlice start stop then .ok (text.extract start stop) else .error .slice

/-- One text behind another. -/
def append (first second : Text) : Text := ⟨first.bytes ++ second.bytes⟩

instance : Append Text := ⟨append⟩

end Text

end Highlight
