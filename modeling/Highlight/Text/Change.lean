/-
**Edits of a text and what they do to positions.**

Replacing the bytes `[start, oldEnd)` moves every position behind them by the difference of the
lengths. A `Change` records just that:

* `Change.carry`: a position before the edit stays, one at or behind its end moves, one inside
  goes to the start;
* `Text.replace`: the edit itself, with the change it amounts to; its range has to lie in the text
  and between characters.
-/

import Highlight.Text.Basic

namespace Highlight

/-- A size moved by a signed distance, kept in the range of sizes. -/
def shifted (size : Nat) (distance : Int) : Nat :=
  min ((size : Int) + distance).toNat maxSize

/-- The bytes `[start, oldEnd)` were replaced and the text became `delta` bytes longer. -/
structure Change where
  start : Nat
  oldEnd : Nat
  delta : Int
  deriving DecidableEq, Repr, Inhabited

namespace Change

/-- A size read as a signed number of 64 bits. -/
def signed (size : Nat) : Int := Int.bmod size 0x10000000000000000

/-- The change that puts `inserted` bytes in the place of `[start, oldEnd)`. -/
def ofLengths (start oldEnd inserted : Nat) : Except Fault Change :=
  if oldEnd < start then .error .overflow
  else
    let delta := signed inserted - signed (oldEnd - start)
    if -0x8000000000000000 ≤ delta ∧ delta < 0x8000000000000000 then .ok ⟨start, oldEnd, delta⟩
    else .error .overflow

/-- End of the changed bytes after the edit. -/
def newEnd (change : Change) : Nat := shifted change.oldEnd change.delta

/-- Where a position of the old text is in the new one. -/
def carry (change : Change) (position : Nat) : Nat :=
  if change.oldEnd ≤ position then shifted position change.delta
  else if change.start < position then change.start
  else position

end Change

namespace Text

/-- The text with `inserted` in the place of the bytes `[start, stop)`. -/
def splice (text : Text) (start stop : Nat) (inserted : Text) : Text :=
  text.extract 0 start ++ inserted ++ text.extract stop text.size

/-- Replaces the bytes `[start, stop)`, which have to begin and end between characters. -/
def replace (text : Text) (start stop : Nat) (inserted : String) :
    Except Fault (Text × Change) := do
  if ¬ (start ≤ stop ∧ stop ≤ text.size) then
    throw (.editRange start stop text.size)
  if ¬ text.isSlice start stop then
    throw .slice
  let inserted := ofString inserted
  let change ← Change.ofLengths start stop inserted.size
  return (text.splice start stop inserted, change)

/-- Puts a string in at a position. -/
def insert (text : Text) (position : Nat) (inserted : String) : Except Fault (Text × Change) :=
  text.replace position position inserted

/-- Takes the bytes `[start, stop)` out. -/
def delete (text : Text) (start stop : Nat) : Except Fault (Text × Change) :=
  text.replace start stop ""

end Text

end Highlight
