/-
**Answers to questions about styles.**

The styles of some bytes are known exactly, or have been guessed, or cannot be told.
-/

namespace Highlight

/-- The answer to a question about styles. -/
inductive Answer (α : Type) where
  /-- Scanned from a break that fits the text. -/
  | exact (value : α)
  /-- Scanned from a guess; it may be wrong until the text is processed. -/
  | approximate (value : α)
  /-- No break is near enough, and the grammar does not allow to guess. -/
  | unavailable
  deriving DecidableEq, Repr, Inhabited

namespace Answer

/-- Whether the answer is exact. -/
def isExact {α : Type} : Answer α → Bool
  | exact _ => true
  | _ => false

/-- What the answer says, if anything. -/
def value? {α : Type} : Answer α → Option α
  | exact value => some value
  | approximate value => some value
  | unavailable => none

/-- An answer whose value, if it has one, is replaced; unavailable where there is nothing to put. -/
def filterMap {α β : Type} (f : α → Option β) : Answer α → Answer β
  | exact value => (f value).elim unavailable exact
  | approximate value => (f value).elim unavailable approximate
  | unavailable => unavailable

end Answer

end Highlight
