/-
**Styles in runs.**

Instead of byte by byte, styles are told by ranges in which they do not change:

* `StyledSpan.runs`: the longest such ranges, in order.
-/

import Highlight.Scan.Token

namespace Highlight.StyledSpan

/-- The runs of the styles of consecutive bytes, the first of which is at `start`. -/
def runsFrom (start : Nat) : List StyleId → List StyledSpan
  | [] => []
  | style :: rest =>
    let stop := start + 1 + (rest.takeWhile (· == style)).length
    ⟨start, stop, style⟩ :: runsFrom stop (rest.dropWhile (· == style))
termination_by styles => styles.length
decreasing_by
  have := (rest.dropWhile_suffix (· == style)).length_le
  simp only [List.length_cons]
  omega

/-- The runs of the styles of a text. -/
def runs (styles : List StyleId) : List StyledSpan := runsFrom 0 styles

end Highlight.StyledSpan
