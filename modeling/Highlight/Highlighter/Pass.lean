/-
**Storing checkpoints while a text is scanned.**

A pass over a text advances the frontier, the last break that is known to fit the text. It stores a
break whenever enough bytes have gone by since the frontier, and wherever it meets an old break, for
if that one is just the same then the old breaks behind it fit the text too:

* `Pass.checkpoint`: what the pass does at a place where the scan could be taken up;
* `Pass.checkpointRun`: the same at chosen places inside of text that no pattern matches;
* `Pass.sink`: both, for every token of a scan.

The pass ends early at such a fixed point, or when its time is over, which it finds out only after it
has stored a break.
-/

import Highlight.Break.Index
import Highlight.Scan.Basic

namespace Highlight

/-- When the time of a slice of work is over. A slice ends with the first look at the clock that finds
its time over, so that all there is to a deadline is how many looks come before that one. -/
inductive Deadline where
  /-- The deadline that is not reached. -/
  | never
  /-- The deadline that is not over yet at as many looks. -/
  | after (looks : Nat)
  deriving DecidableEq, Repr, Inhabited

namespace Deadline

/-- The deadline that is over from the start. -/
def expired : Deadline := .after 0

/-- Whether the time is over at a look that comes after `looks` others. -/
def isOver : Deadline → (looks : Nat) → Bool
  | never, _ => false
  | after allowed, looks => allowed ≤ looks

/-- How many more looks find the time not over, where there is an end to them. -/
def left : Deadline → (looks : Nat) → Nat
  | never, _ => 0
  | after allowed, looks => allowed - looks

end Deadline

/-- Why a pass ended before the text did. -/
inductive Interrupt where
  /-- An old break was met in the same state, so that nothing behind it changes. -/
  | fixedPoint
  /-- The time was over. -/
  | deadline
  deriving DecidableEq, Repr, Inhabited

/-- The settings of a pass. -/
structure PassPlan where
  text : Text
  /-- Distance in bytes between checkpoints. -/
  spacing : Nat
  deadline : Deadline

/-- What a pass has come to. -/
structure Pass where
  breaks : BreakIndex
  /-- The last break that is known to fit the text. -/
  frontier : BreakId
  /-- Old breaks before this position cannot be relied on to be followed by breaks that fit. -/
  restartEnd : Option Nat
  /-- How often the clock has been looked at. -/
  looks : Nat
  interrupt : Option Interrupt
  deriving DecidableEq, Inhabited

namespace Pass

/-- Whether a position is at or behind the one where old breaks may be relied on again. -/
def isRestarted (restartEnd : Option Nat) (position : Nat) : Bool :=
  match restartEnd with
  | some stop => stop ≤ position
  | none => true

/-- Whether the next old break is at or before a position. -/
def isOldPending (pass : Pass) (position : Nat) : Except Fault Bool := do
  match ← pass.breaks.next pass.frontier with
  | some next => return (← pass.breaks.position next) ≤ position
  | none => return false

/-- Stores a break where the scan has come to, if it is time to, and looks at the clock if so. -/
def checkpoint (plan : PassPlan) (pass : Pass) (value : Break) : Except Fault (Pass × Flow) := do
  let distance ← checkedSub value.position (← pass.breaks.position pass.frontier)
  if distance < plan.spacing ∧ ¬ (← pass.isOldPending value.position) then
    return (pass, .proceed)
  let ⟨breaks, frontier, restartEnd, looks, interrupt⟩ := pass
  let restarted := isRestarted restartEnd value.position
  let (result, breaks) ← breaks.setBreak frontier value restarted
  match result with
  | .fixedPoint _ =>
    let last := breaks.last
    return (⟨breaks, last, none, looks, some .fixedPoint⟩, .halt)
  | .inserted id | .reused id =>
    let restartEnd := if restarted then none else restartEnd
    if plan.deadline.isOver looks then
      return (⟨breaks, id, restartEnd, looks + 1, some .deadline⟩, .halt)
    else return (⟨breaks, id, restartEnd, looks + 1, interrupt⟩, .proceed)

/-- The next place inside of unmatched text to store a break at: where the next one is due, or where
an old one is, whichever comes first. -/
def candidate? (plan : PassPlan) (pass : Pass) (start stop : Nat) : Except Fault (Option Nat) := do
  let reached ← pass.breaks.position pass.frontier
  let due := plan.text.ceil (← checkedAdd reached plan.spacing)
  let old ← match ← pass.breaks.next pass.frontier with
    | some next => pure [← pass.breaks.position next]
    | none => pure []
  return ((due :: old).filter fun position => start < position && position < stop).min?

/-- Stores the breaks that are due strictly between `start` and `stop`, where no pattern matched. Only
at a spacing of zero can two of them be at one place. -/
def checkpointRun (plan : PassPlan) (start stop : Nat) (stack : PatternStack) :
    (fuel : Nat) → Pass → Except Fault (Pass × Flow)
  | 0, _ => throw .stalled
  | fuel + 1, pass => do
    match ← candidate? plan pass start stop with
    | none => return (pass, .proceed)
    | some position =>
      match ← checkpoint plan pass ⟨position, .inner, stack⟩ with
      | (pass, .halt) => return (pass, .halt)
      | (pass, .proceed) => checkpointRun plan start stop stack fuel pass

/-- Stores the breaks that are due at the tokens of a scan. The fuel is enough for a break at each
place and for every look at the clock that the deadline allows. It runs out only at a spacing of zero
without a deadline, where the pass would go on to store breaks at one place. -/
def sink (plan : PassPlan) : Sink Pass := fun pass token state => do
  let (pass, flow) ←
    if token.plain then
      checkpointRun plan token.start state.position state.stack
        (state.position - token.start + 1 + plan.deadline.left pass.looks) pass
    else pure (pass, .proceed)
  match flow with
  | .halt => return (pass, .halt)
  | .proceed => checkpoint plan pass ⟨state.position, token.kind, state.stack⟩

end Pass

end Highlight
