/-
**Faults: the ways an operation can break the promise its caller made.**

A fault is not an answer about a text: it says that an operation was called outside the range where
it means something, or that a quantity left the machine's range. Every such case has a constructor:

* `Fault.message`: the wording of the faults the library states itself; the others have none;
* `checkedAdd`, `checkedSub`, `checkedMul`: the three operations on sizes that can leave the range
  `[0, 2 ^ 64)`.
-/

namespace Highlight

/-- Largest value a position or a size can have. -/
def maxSize : Nat := 0xFFFFFFFFFFFFFFFF

/-- The ways an operation can be called outside of its range. -/
inductive Fault where
  /-- An edit of the bytes `[start, stop)` of a text of `size` bytes that are not all there. -/
  | editRange (start stop size : Nat)
  /-- A break was looked up under the identifier of a slot that holds none. -/
  | deadBreak (id : Nat)
  /-- The break at the start of the text was to be deleted. -/
  | firstBreakDeleted
  /-- A walk moved on from the last break. -/
  | movedPastLast
  /-- A walk moved back from the first break. -/
  | movedBeforeFirst
  /-- A break was to be stored before its predecessor or behind its successor. -/
  | breakOrder
  /-- A slice of a text begins or ends inside a character, or its ends are reversed or not there. -/
  | slice
  /-- An entry of a table was asked for that it does not have. -/
  | noEntry
  /-- A sum, difference or product of sizes left the range of sizes. -/
  | overflow
  /-- A search was to begin behind the end of its subject. -/
  | searchStart
  /-- A loop came back to where it was, so it would go on forever. -/
  | stalled
  deriving DecidableEq, Repr

namespace Fault

/-- The wording of the faults that state what was broken. -/
def message : Fault → Option String
  | editRange start stop size => some s!"edit range {start}..{stop} out of bounds (len {size})"
  | deadBreak id => some s!"break BreakId({id}) was deleted"
  | firstBreakDeleted => some "the first break can't be deleted"
  | movedPastLast => some "moved past the last break"
  | movedBeforeFirst => some "moved before the first break"
  | _ => none

end Fault

/-- The sum of two sizes, if it is one. -/
def checkedAdd (left right : Nat) : Except Fault Nat :=
  if left + right ≤ maxSize then .ok (left + right) else .error .overflow

/-- The difference of two sizes, if it is one. -/
def checkedSub (left right : Nat) : Except Fault Nat :=
  if right ≤ left then .ok (left - right) else .error .overflow

/-- The product of two sizes, if it is one. -/
def checkedMul (left right : Nat) : Except Fault Nat :=
  if left * right ≤ maxSize then .ok (left * right) else .error .overflow

/-- The sum of two sizes, or the largest size where they exceed it. -/
def saturatingAdd (left right : Nat) : Nat := min (left + right) maxSize

theorem checkedAdd_eq_ok {left right : Nat} (fits : left + right ≤ maxSize) :
    checkedAdd left right = .ok (left + right) := if_pos fits

theorem checkedSub_eq_ok {left right : Nat} (fits : right ≤ left) :
    checkedSub left right = .ok (left - right) := if_pos fits

theorem checkedMul_eq_ok {left right : Nat} (fits : left * right ≤ maxSize) :
    checkedMul left right = .ok (left * right) := if_pos fits

end Highlight
