/-
**Ranges of positions.**

* `Span.hull`: the smallest range that holds two ranges;
* `Span.carry`: where an edit moves a range;
* `Span.clip`: the part of a range that lies in a text of a given size.
-/

import Highlight.Text.Change

namespace Highlight

/-- The positions from `start` up to `stop`, which is not one of them. -/
structure Span where
  start : Nat
  stop : Nat
  deriving DecidableEq, Repr, Inhabited

namespace Span

/-- Whether a range holds no position. -/
def isEmpty (span : Span) : Bool := span.stop ≤ span.start

/-- The smallest range that holds two ranges. -/
def hull (first second : Span) : Span :=
  ⟨min first.start second.start, max first.stop second.stop⟩

/-- The range that an edit makes of a range. -/
def carry (change : Change) (span : Span) : Span :=
  ⟨change.carry span.start, change.carry span.stop⟩

/-- The part of a range that is in a text of `size` bytes. -/
def clip (span : Span) (size : Nat) : Span := ⟨min span.start size, min span.stop size⟩

/-- A pending range with another one added to it, unless that one is empty. -/
def add (pending : Option Span) (span : Span) : Option Span :=
  if span.isEmpty then pending
  else match pending with
    | some pending => some (pending.hull span)
    | none => some span

end Span

end Highlight
