/-
**Scanning a text.**

A scanner searches one window of the text after the other. In each it makes moves until the window
is used up, handing the tokens to a sink:

* `Scanner.step`: the moves up to and over the next match in the window;
* `Scanner.scanWindow`: steps until the window ends, the limit is reached or the sink calls a halt;
* `Scanner.run`: windows until the limit is reached or the sink calls a halt.

Every step either gets on or marks that a match of no bytes was used, which makes `Window.budget`
smaller; a step that does neither is a fault.
-/

import Highlight.Scan.Move

namespace Highlight

/-- What a text is scanned with. -/
structure Scanner where
  grammar : Grammar
  /-- How many bytes are searched at a time. -/
  unit : Nat

/-- How a scan ended. -/
inductive ScanEnd where
  /-- The sink called a halt or the limit was reached. -/
  | stopped
  /-- The end of the text was reached. -/
  | endOfText
  deriving DecidableEq, Repr, Inhabited

/-- Where a scan has got to: what the sink has made of the tokens, the state, and whether to go on. -/
structure Progress (σ : Type) where
  collected : σ
  state : ScanState
  flow : Flow

/-- An upper bound of the steps a scan can still make in a window. -/
def Window.budget (window : Window) (state : ScanState) : Nat :=
  2 * (window.searchEnd - state.position) + if state.emptyAt = some state.position then 0 else 1

namespace Scanner

/-- The scanner that searches `unit` bytes at a time, at least one. -/
def ofUnit (grammar : Grammar) (unit : Nat) : Scanner := ⟨grammar, max unit 1⟩

/-- Hands the token of a move to a sink. -/
def deliver {σ : Type} (sink : Sink σ) (collected : σ) (move : Move) :
    Except Fault (Progress σ) := do
  match move.token with
  | some token =>
    let (collected, flow) ← sink collected token move.state
    return ⟨collected, move.state, flow⟩
  | none => return ⟨collected, move.state, .proceed⟩

/-- The moves up to the next match in the window and over it, or to the end of the search if there
is no match. -/
def step {σ : Type} (scanner : Scanner) (sink : Sink σ) (window : Window) (state : ScanState)
    (collected : σ) : Except Fault (Progress σ) := do
  match ← scanner.grammar.search window state with
  | none => deliver sink collected (← scanner.grammar.plainMove state window.searchEnd)
  | some choice =>
    let start := window.offset + choice.found.start
    if state.position < start then
      let before ← deliver sink collected (← scanner.grammar.plainMove state start)
      match before.flow with
      | .halt => return before
      | .proceed =>
        deliver sink before.collected
          (← scanner.grammar.matchMove window before.state choice)
    else deliver sink collected (← scanner.grammar.matchMove window state choice)

/-- Steps until the window is used up, the limit is reached or the sink calls a halt. -/
def scanWindow {σ : Type} (scanner : Scanner) (sink : Sink σ) (window : Window) (limit : Nat)
    (state : ScanState) (collected : σ) : Except Fault (Progress σ) := do
  if state.position < window.searchEnd then
    let after ← scanner.step sink window state collected
    match after.flow with
    | .halt => return after
    | .proceed =>
      if limit ≤ after.state.position then return after
      else if window.budget after.state < window.budget state then
        scanWindow scanner sink window limit after.state after.collected
      else throw .stalled
  else return ⟨collected, state, .proceed⟩
termination_by window.budget state

/-- Windows until the limit is reached or the sink calls a halt. -/
def scanTo {σ : Type} (scanner : Scanner) (text : Text) (sink : Sink σ) (limit : Nat)
    (state : ScanState) (collected : σ) : Except Fault (Progress σ) := do
  if state.position < limit then
    let searchEnd := text.ceil (← checkedAdd state.position scanner.unit)
    let window ← Window.around text state.position searchEnd scanner.grammar.maxExtend
    let after ← scanner.scanWindow sink window limit state collected
    match after.flow with
    | .halt => return after
    | .proceed =>
      if state.position < after.state.position then
        scanTo scanner text sink limit after.state after.collected
      else throw .stalled
  else return ⟨collected, state, .proceed⟩
termination_by limit - state.position

/-- Scans from a state until the limit or the end of the text is reached or the sink calls a halt. -/
def run {σ : Type} (scanner : Scanner) (text : Text) (sink : Sink σ) (limit : Nat)
    (state : ScanState) (collected : σ) : Except Fault (σ × ScanState × ScanEnd) := do
  let after ← scanner.scanTo text sink (min limit text.size) state collected
  let ending := match after.flow with
    | .halt => .stopped
    | .proceed => if text.size ≤ after.state.position then .endOfText else .stopped
  return (after.collected, after.state, ending)

end Scanner

end Highlight
