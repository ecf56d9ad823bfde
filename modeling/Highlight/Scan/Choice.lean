/-
**Which match a scan uses next.**

The closing match of the innermost region and the opening matches of its children compete, and the
leftmost one wins. At a tie the closing match wins, unless the region has it the other way round, and
among the children the first one:

* `Grammar.closing?`: the closing match, which has to repeat the text that was remembered, if any;
* `Grammar.child?`: the opening match of a child, looked for no further than it could win;
* `Grammar.choose`: the winner;
* `Grammar.search`: the winner, where its positions are sizes.

The positions of all matches are positions in the window.
-/

import Highlight.Scan.Window
import Highlight.Scan.Token

namespace Highlight

/-- The match that a scan uses next. -/
inductive Choice where
  /-- The innermost region ends. -/
  | closing (found : Regex.Match)
  /-- A child of the innermost region matches. -/
  | child (id : PatternId) (found : Regex.Match)
  deriving DecidableEq, Repr

namespace Choice

/-- The match itself. -/
def found : Choice → Regex.Match
  | closing found => found
  | child _ found => found

/-- The winner of a closing match and an opening match of a child, if there is any. -/
def between (closingLast : Bool) :
    Option Regex.Match → Option (PatternId × Regex.Match) → Option Choice
  | none, none => none
  | some ending, none => some (.closing ending)
  | none, some (id, start) => some (.child id start)
  | some ending, some (id, start) =>
    if start.start < ending.start ∨ (start.start = ending.start ∧ closingLast) then
      some (.child id start)
    else some (.closing ending)

end Choice

namespace Grammar

/-- Whether a closing match repeats what was remembered when the region was entered. -/
def repeats (pattern : Pattern) (pushed : Option Text) (subject : Text) (found : Regex.Match) :
    Bool :=
  match pattern.endCapture, pushed with
  | some group, some pushed => found.group? subject group == some pushed
  | _, _ => true

/-- The closing match of a region, whose frame remembers `pushed`, that starts in
`[position, window.searchEnd)`. -/
def closing? (grammar : Grammar) (pattern : Pattern) (pushed : Option Text) (window : Window)
    (position : Nat) : Except Fault (Option Regex.Match) := do
  match pattern.closing with
  | none => return none
  | some closing =>
    let regex ← grammar.regex closing
    let offers ← regex.alone.findAt window.subject (window.relative position)
      (window.relative window.searchEnd) window.flags
      (fun _ found => repeats pattern pushed window.subject found) []
    return offers.accepted

/-- Where a child has to start before to win over the closing match, which starts before `stop`. -/
def childLimit (ending : Option Regex.Match) (stop : Nat) : Nat :=
  match ending with
  | some ending => min (ending.start + 1) stop
  | none => stop

/-- The opening match of a child that starts in the window from `position` on, no later than the
closing match. -/
def child? (grammar : Grammar) (pattern : Pattern) (window : Window) (position : Nat)
    (ending : Option Regex.Match) : Option (PatternId × Regex.Match) :=
  Regex.Matcher.searchAll (grammar.members pattern) window.subject (window.relative position)
    (childLimit ending (window.relative window.searchEnd)) window.flags

/-- The match that a scan uses next, if there is one in the window. -/
def choose (grammar : Grammar) (window : Window) (state : ScanState) :
    Except Fault (Option Choice) := do
  let frame := state.stack.top
  let pattern ← grammar.pattern frame.pattern
  let ending ← grammar.closing? pattern frame.pushed window state.position
  let start := grammar.child? pattern window state.position ending
  return Choice.between pattern.closingLast ending start

/-- The match that a scan uses next, if there is one in the window. The positions of the search are
looked for in the window, and those of the match in the text. -/
def search (grammar : Grammar) (window : Window) (state : ScanState) :
    Except Fault (Option Choice) := do
  let _ ← checkedSub state.position window.offset
  let _ ← checkedSub window.searchEnd window.offset
  match ← grammar.choose window state with
  | none => return none
  | some choice =>
    let _ ← checkedAdd choice.found.start window.offset
    let _ ← checkedAdd choice.found.stop window.offset
    return some choice

end Grammar

end Highlight
