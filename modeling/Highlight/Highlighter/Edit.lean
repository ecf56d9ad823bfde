/-
**What an edit does to the breaks.**

A break whose regexes could have seen the edited bytes may not fit the text any more. With `reach`
the distance that regexes see, and one more:

* `Highlighter.restartFor`: the last break that is at least `reach` before the edit, where processing
  is taken up again;
* `Highlighter.keptFrom`: the first break more than `reach` behind it. From there on the old breaks
  are kept and move along with the text;
* `Highlighter.edit`: the breaks in between are deleted, and the frontier goes back if it has to.
-/

import Highlight.Highlighter.Basic

namespace Highlight.Highlighter

/-- How far from a position a regex can see, and one byte more. -/
def reach (grammar : Grammar) : Except Fault Nat := checkedAdd grammar.maxExtend 1

/-- Goes back from a break to one that is at least `reach` before `start`, or to the first. -/
def walkBack (breaks : BreakIndex) (reach start : Nat) :
    (fuel : Nat) → BreakId → Except Fault BreakId
  | 0, _ => throw .stalled
  | fuel + 1, id => do
    if id = BreakIndex.first then return id
    else if start < (← checkedAdd (← breaks.position id) reach) then
      walkBack breaks reach start fuel (← breaks.movePrevious id)
    else return id

/-- The break that processing is taken up from after an edit. -/
def restartFor (breaks : BreakIndex) (hint : Option BreakId) (reach start : Nat) :
    Except Fault BreakId := do
  walkBack breaks reach start breaks.nodes.size (← breaks.seekBefore hint start)

/-- The first break from `current` on that is more than `reach` behind `oldEnd`. -/
def keptFrom (breaks : BreakIndex) (reach oldEnd : Nat) :
    (fuel : Nat) → Option BreakId → Except Fault (Option BreakId)
  | _, none => return none
  | 0, _ => throw .stalled
  | fuel + 1, some id => do
    if (← checkedAdd oldEnd reach) < (← breaks.position id) then return some id
    else keptFrom breaks reach oldEnd fuel (← breaks.next id)

/-- The frontier after an edit that restarts at `restart`, and the position that old breaks cannot be
relied on before, if there is one for this edit. A frontier before the restart stays where it is; the
old breaks up to the restart still fit, but a fixed point among them would leave out the edit. -/
def rewind (highlighter : Highlighter) (change : Change) (restart : BreakId) (position : Nat) :
    Except Fault (BreakId × Option Nat) := do
  let reached ← highlighter.frontierPosition
  if position ≤ reached then
    if highlighter.needsProcessing then
      return (restart, some (← checkedAdd (change.carry reached) 1))
    else return (restart, none)
  else return (highlighter.frontier, some (← checkedAdd position 1))

/-- The later of two positions, each of which may be missing. -/
def later : Option Nat → Option Nat → Option Nat
  | some first, some second => some (max first second)
  | first, none => first
  | none, second => second

/-- Takes the breaks along with an edit of the text. -/
def edit (highlighter : Highlighter) (change : Change) : Except Fault Highlighter := do
  let reach ← reach highlighter.grammar
  let restart ← restartFor highlighter.breaks highlighter.lastRestart reach change.start
  let position ← highlighter.breaks.position restart
  let (frontier, marker) ← highlighter.rewind change restart position
  let ⟨grammar, config, breaks, _, restartEnd, _, _, dirty⟩ := highlighter
  let stale ← breaks.next restart
  let kept ← keptFrom breaks reach change.oldEnd (breaks.nodes.size + 1) stale
  let breaks ← match stale with
    | some first => if stale = kept then pure breaks else breaks.deleteRange first kept
    | none => pure breaks
  let breaks ← match kept with
    | some id => breaks.shiftFrom id change.delta
    | none => pure breaks
  return {
    grammar := grammar
    config := config
    breaks := breaks
    frontier := frontier
    restartEnd := later (restartEnd.map change.carry) marker
    lastRestart := some restart
    needsProcessing := grammar.hasPatterns
    dirty := Span.add (dirty.map (Span.carry change)) ⟨position, change.newEnd⟩ }

end Highlight.Highlighter
