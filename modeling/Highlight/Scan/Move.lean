/-
**The moves of a scan.**

A move leads from one state to the next and over at most one token. There are three of them:

* `Grammar.plainMove`: over text that no pattern matches;
* `Grammar.matchMove`: over a match, which may enter or leave a region. A match of no bytes leads over
  no token;
* `Grammar.forcedMove`: over a single character, where a match of no bytes has been used already.

A region that would be entered on a full stack is not entered, its opening match being a token like
any other.
-/

import Highlight.Scan.Choice

namespace Highlight

/-- A move of a scan: the token it leads over, if any, and the state behind it. -/
structure Move where
  token : Option Token
  state : ScanState
  deriving DecidableEq, Inhabited

namespace Regex.Match

/-- The pieces of a match that its groups style, in the order of the groups. -/
def captureSpans (found : Match) (styles : List (Option StyleId)) : List StyledSpan :=
  styles.zipIdx.filterMap fun (style, group) => do
    let style ← style
    let (start, stop) ← found.span? group
    let start := max start found.start
    let stop := min stop found.stop
    if start < stop then some ⟨start, stop, style⟩ else none

/-- The token of a match; none if the match has no bytes. -/
def token (found : Match) (style : StyleId) (captures : List (Option StyleId)) (kind : BreakKind) :
    Option Token :=
  if found.start < found.stop then
    some ⟨found.start, found.stop, style, found.captureSpans captures, kind, false⟩
  else none

end Regex.Match

namespace Grammar

/-- The move over text that no pattern matches, up to `stop`. -/
def plainMove (grammar : Grammar) (state : ScanState) (stop : Nat) : Except Fault Move := do
  let style ← state.stack.style grammar
  return ⟨some ⟨state.position, stop, style, [], .inner, true⟩, { state with position := stop }⟩

/-- The move over the next character, whatever it is. -/
def forcedMove (grammar : Grammar) (window : Window) (state : ScanState) : Except Fault Move := do
  let start := window.relative state.position
  if ¬ window.subject.isBoundary start then throw .slice
  let stop ← checkedAdd state.position (window.subject.next start - start)
  let style ← state.stack.style grammar
  return ⟨some ⟨state.position, stop, style, [], .inner, false⟩, ⟨stop, state.stack, none⟩⟩

/-- The style of a match that does not enter a region. -/
def matchStyle (grammar : Grammar) (stack : PatternStack) (pattern : Pattern) :
    Except Fault StyleId :=
  match pattern.style with
  | some style => .ok style
  | none => stack.style grammar

/-- The stack that a child leads to if it enters a region: its frame remembers a group of the match,
which is in positions of the window. -/
def entered? (window : Window) (stack : PatternStack) (pattern : Pattern) (id : PatternId)
    (found : Regex.Match) : Option PatternStack :=
  if pattern.isRegion then
    stack.push ⟨id, pattern.pushCapture.bind fun group => found.group? window.subject group⟩
  else none

/-- The move over a match, in positions of the window, that starts where the scan is. -/
def matchMove (grammar : Grammar) (window : Window) (state : ScanState) (choice : Choice) :
    Except Fault Move := do
  let found := choice.found.moved window.offset
  let isEmpty := found.start = found.stop
  if isEmpty ∧ state.emptyAt = some found.start then
    grammar.forcedMove window state
  else
    let emptyAt := if isEmpty then some found.start else state.emptyAt
    match choice with
    | .closing _ =>
      let style ← state.stack.style grammar
      let top ← grammar.pattern state.stack.top.pattern
      return ⟨found.token style top.closingCaptures .closing,
        ⟨found.stop, state.stack.outer, emptyAt⟩⟩
    | .child id opening =>
      let child ← grammar.pattern id
      match entered? window state.stack child id opening with
      | some stack =>
        let style ← stack.style grammar
        return ⟨found.token style child.openingCaptures .opening, ⟨found.stop, stack, emptyAt⟩⟩
      | none =>
        let style ← grammar.matchStyle state.stack child
        return ⟨found.token style child.openingCaptures .inner,
          ⟨found.stop, state.stack, emptyAt⟩⟩

end Grammar

end Highlight
