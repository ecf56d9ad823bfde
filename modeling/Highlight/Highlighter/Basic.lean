/-
**Keeping a text highlighted.**

A highlighter keeps breaks of one text and brings them up to date a slice of work at a time. Up to
the frontier they fit the text; behind it they may be left over from before an edit:

* `Highlighter.ofSize`, `Highlighter.setGrammar`: a fresh start;
* `Highlighter.process`: a slice of work, which advances the frontier until the text ends, old breaks
  are found to fit, or the time is over;
* `Highlighter.checkpointBefore`: the last break at or before a position that fits the text;
* `Highlighter.takeDirty`: the range where styles may have changed since it was last asked for.

What an edit does is in `Highlight.Highlighter.Edit`.
-/

import Highlight.Config
import Highlight.Highlighter.Pass
import Highlight.Text.Span

namespace Highlight

/-- The breaks of a text and how far they fit it. -/
structure Highlighter where
  grammar : Grammar
  config : Config
  breaks : BreakIndex
  /-- The last break that is known to fit the text. -/
  frontier : BreakId
  /-- Where old breaks may be relied on again, if edits behind the frontier have left some that may
  not. -/
  restartEnd : Option Nat
  /-- The break that the last edit went back to, from which the next one looks for its own. -/
  lastRestart : Option BreakId
  needsProcessing : Bool
  /-- Where styles may have changed. -/
  dirty : Option Span

namespace Highlighter

/-- Drops all breaks but the first; the whole text, of `size` bytes, is to be processed. -/
def reset (highlighter : Highlighter) (size : Nat) : Highlighter :=
  { highlighter with
    breaks := .initial
    frontier := BreakIndex.first
    restartEnd := none
    lastRestart := none
    needsProcessing := highlighter.grammar.hasPatterns
    dirty := Span.add highlighter.dirty ⟨0, size⟩ }

/-- The highlighter of a text of `size` bytes. -/
def ofSize (grammar : Grammar) (config : Config) (size : Nat) : Highlighter :=
  reset ⟨grammar, config, .initial, BreakIndex.first, none, none, false, none⟩ size

/-- Changes the grammar. -/
def setGrammar (highlighter : Highlighter) (grammar : Grammar) (size : Nat) : Highlighter :=
  reset { highlighter with grammar := grammar } size

/-- How far the breaks fit the text. -/
def frontierPosition (highlighter : Highlighter) : Except Fault Nat :=
  highlighter.breaks.position highlighter.frontier

/-- The last break at or before a position that is known to fit the text; the walk to it begins at
`hint`. -/
def checkpointBefore (highlighter : Highlighter) (hint : Option BreakId) (position : Nat) :
    Except Fault BreakId := do
  highlighter.breaks.seekBefore hint (min position (← highlighter.frontierPosition))

/-- The range where styles may have changed, which is forgotten. -/
def takeDirty (highlighter : Highlighter) : Option Span × Highlighter :=
  (highlighter.dirty, { highlighter with dirty := none })

/-- Notes that there is nothing left to process. -/
def finish (highlighter : Highlighter) : Highlighter :=
  { highlighter with restartEnd := none, needsProcessing := false }

/-- Advances the frontier until the text ends, a fixed point is found or the time is over, and tells
how many bytes were scanned. -/
def process (highlighter : Highlighter) (text : Text) (deadline : Deadline) :
    Except Fault (Nat × Highlighter) := do
  if ¬ highlighter.needsProcessing then return (0, highlighter)
  let ⟨grammar, config, breaks, frontier, restartEnd, lastRestart, needsProcessing, dirty⟩ :=
    highlighter
  let scanner := Scanner.ofUnit grammar (← config.windowUnit)
  let state := ScanState.ofBreak (← breaks.get frontier)
  let start := state.position
  let (pass, state, ending) ← scanner.run text (Pass.sink ⟨text, config.spacing, deadline⟩)
    text.size state ⟨breaks, frontier, restartEnd, 0, none⟩
  let ⟨breaks, frontier, restartEnd, _, interrupt⟩ := pass
  let scanned := state.position - start
  let dirty := Span.add dirty ⟨start, state.position⟩
  match interrupt, ending with
  | none, .endOfText =>
    let breaks ← breaks.truncateAfter frontier
    return (scanned, finish
      ⟨grammar, config, breaks, frontier, restartEnd, lastRestart, needsProcessing, dirty⟩)
  | some .fixedPoint, _ =>
    return (scanned, finish
      ⟨grammar, config, breaks, frontier, restartEnd, lastRestart, needsProcessing, dirty⟩)
  | _, _ =>
    return (scanned,
      ⟨grammar, config, breaks, frontier, restartEnd, lastRestart, needsProcessing, dirty⟩)

end Highlighter

end Highlight
