/-
**The piece of a text that is searched at a time.**

Matches may start only from the position of the scan up to the end of the search, but the regexes see
some more of the text on both sides, so that what they look behind and ahead for is there wherever the
scan was taken up:

* `Window.around`: the window for a search, its ends moved out to character boundaries;
* `Window.relative`: where a position of the text is in the window.

Where the window begins or ends in the middle of a line, the regexes are told so.
-/

import Highlight.Regex.Matcher

namespace Highlight

/-- A piece of a text for the regexes to search. -/
structure Window where
  /-- What the regexes see. -/
  subject : Text
  /-- The position in the text of the first byte they see. -/
  offset : Nat
  /-- The position in the text that matches must start before. -/
  searchEnd : Nat
  flags : Regex.SearchFlags
  deriving Inhabited

namespace Window

/-- The window of a search from `position` to `searchEnd` that sees `maxExtend` bytes around them. -/
def around (text : Text) (position searchEnd maxExtend : Nat) : Except Fault Window := do
  let start := text.floor (position - maxExtend)
  let stop := text.ceil (saturatingAdd searchEnd maxExtend)
  let flags : Regex.SearchFlags := ⟨!text.isLineStart start, !text.isLineEnd stop⟩
  return ⟨← text.slice start stop, start, searchEnd, flags⟩

/-- The position in the window of a position in the text. -/
def relative (window : Window) (position : Nat) : Nat := position - window.offset

end Window

end Highlight
