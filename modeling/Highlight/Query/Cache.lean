/-
**Answering questions about styles.**

The styles of some bytes are found by scanning from a break before them. What was scanned is kept,
since the next question is often about the same place:

* `StyleRun`: the styles that are kept, with the state of the scan behind them;
* `StyleCache.seed?`: where a new run begins, which is a break that fits the text and is near enough,
  or else a guess, if the grammar allows it;
* `StyleCache.styles`, `StyleCache.style`: the answers;
* `StyleCache.edit`: what an edit leaves of the run.
-/

import Highlight.Highlighter.Basic
import Highlight.Highlighter.Edit
import Highlight.Query.Basic
import Highlight.Scan.Styles

namespace Highlight

/-- Styles that have been scanned, and the state of the scan behind them. -/
structure StyleRun where
  row : StyleRow
  state : ScanState
  /-- Whether the scan began at a break that fitted the text. -/
  exact : Bool
  deriving DecidableEq, Inhabited

/-- What is kept between questions. -/
structure StyleCache where
  run : Option StyleRun
  /-- The break that the last run began at, from which the next one is looked for. -/
  hint : Option BreakId
  deriving DecidableEq, Inhabited

namespace StyleCache

/-- The cache that keeps nothing. -/
def empty : StyleCache := ⟨none, none⟩

/-- Whether a run that begins now could begin at a break that fits the text. -/
def canSeedExact (cache : StyleCache) (highlighter : Highlighter) (position : Nat) :
    Except Fault Bool := do
  let checkpoint ← highlighter.checkpointBefore cache.hint position
  let maxDistance ← highlighter.config.maxDistance highlighter.grammar
  return (← checkedSub position (← highlighter.breaks.position checkpoint)) ≤ maxDistance

/-- Whether the run that is kept serves a question about a position. A guess does not where an exact
answer could be had. -/
def isReusable (cache : StyleCache) (highlighter : Highlighter) (position maxDistance : Nat) :
    Except Fault Bool := do
  match cache.run with
  | none => return false
  | some run =>
    if position < run.row.start then return false
    else if (← checkedAdd run.row.stop maxDistance) < position then return false
    else if run.exact then return true
    else return ! (← cache.canSeedExact highlighter position)

/-- The state that a new run begins in, and whether it is known to fit the text. -/
def seedFrom (text : Text) (highlighter : Highlighter) (checkpoint : Break) (position : Nat) :
    Except Fault (Option (ScanState × Bool)) := do
  let grammar := highlighter.grammar
  let guess := text.floor (position - highlighter.config.reparseRange)
  let distance ← checkedSub position checkpoint.position
  if distance ≤ (← highlighter.config.maxDistance grammar) ∨
      (grammar.approximate ∧ guess ≤ checkpoint.position) then
    return some (.ofBreak checkpoint, true)
  else if grammar.approximate then return some (.startingAt guess .root, false)
  else return none

/-- The run that a question about a position begins, if there is anything to begin it from, and the
break that was nearest. -/
def seed? (cache : StyleCache) (text : Text) (highlighter : Highlighter) (position : Nat) :
    Except Fault (Option StyleRun × BreakId) := do
  let checkpoint ← highlighter.checkpointBefore cache.hint position
  let seed ← seedFrom text highlighter (← highlighter.breaks.get checkpoint) position
  return (seed.map fun (state, exact) => ⟨.empty state.position, state, exact⟩, checkpoint)

/-- The run with the styles up to `stop`, scanned further if need be. -/
def extend (run : StyleRun) (text : Text) (highlighter : Highlighter) (stop : Nat) :
    Except Fault StyleRun := do
  if run.row.stop < stop then
    let scanner := Scanner.ofUnit highlighter.grammar (← highlighter.config.windowUnit)
    let ⟨row, state, exact⟩ := run
    let (row, state, _) ← scanner.run text StyleRow.sink stop state row
    return ⟨row, state, exact⟩
  else return run

/-- A long run without the styles that are more than `maxDistance` before a position. -/
def trim (run : StyleRun) (position maxDistance : Nat) : Except Fault StyleRun := do
  if run.row.styles.size ≤ (← checkedMul 4 maxDistance) then return run
  else
    let cut := (← checkedSub position run.row.start) - maxDistance
    return { run with row := ⟨run.row.start + cut, run.row.styles.extract cut run.row.styles.size⟩ }

/-- The styles of the bytes `[start, stop)` in a row that holds them. -/
def piece (row : StyleRow) (start stop : Nat) : Except Fault (Array StyleId) :=
  if row.start ≤ start ∧ start ≤ stop ∧ stop ≤ row.stop then
    .ok (row.styles.extract (start - row.start) (stop - row.start))
  else .error .noEntry

/-- The styles of the bytes `[start, stop)` from a run, which is kept. -/
def serve (run : StyleRun) (hint : Option BreakId) (text : Text) (highlighter : Highlighter)
    (start stop maxDistance : Nat) : Except Fault (Answer (Array StyleId) × StyleCache) := do
  let run ← extend run text highlighter stop
  let run ← trim run start maxDistance
  let styles ← piece run.row start stop
  return (if run.exact then .exact styles else .approximate styles, ⟨some run, hint⟩)

/-- The styles of the `count` bytes from `position` on, as far as the text has them. -/
def styles (cache : StyleCache) (text : Text) (highlighter : Highlighter) (position count : Nat) :
    Except Fault (Answer (Array StyleId) × StyleCache) := do
  let start := min position text.size
  let stop := min (saturatingAdd start count) text.size
  if ¬ highlighter.grammar.hasPatterns then
    return (.exact (Array.replicate (stop - start) defaultStyle), cache)
  if start = stop then return (.exact #[], cache)
  let maxDistance ← highlighter.config.maxDistance highlighter.grammar
  let reusable ← cache.isReusable highlighter start maxDistance
  match cache, reusable with
  | ⟨some run, hint⟩, true => serve run hint text highlighter start stop maxDistance
  | cache, _ =>
    match ← cache.seed? text highlighter start with
    | (some run, hint) => serve run (some hint) text highlighter start stop maxDistance
    | (none, hint) => return (.unavailable, ⟨none, some hint⟩)

/-- The style of the byte at a position. -/
def style (cache : StyleCache) (text : Text) (highlighter : Highlighter) (position : Nat) :
    Except Fault (Answer StyleId × StyleCache) := do
  let (answer, cache) ← cache.styles text highlighter position 1
  return (answer.filterMap fun styles => styles[0]?, cache)

/-- What an edit of the text leaves of the cache. A run behind it moves along, but the scan may come
to it in another state now, so that it is a guess from then on. -/
def edit (cache : StyleCache) (change : Change) (grammar : Grammar) : Except Fault StyleCache := do
  match cache.run with
  | none => return cache
  | some run =>
    let reach ← Highlighter.reach grammar
    if (← checkedAdd run.row.stop reach) ≤ change.start then return cache
    else if (← checkedAdd change.oldEnd reach) ≤ run.row.start then
      let row : StyleRow := { run.row with start := shifted run.row.start change.delta }
      return { cache with run := some ⟨row, run.state.shift change.delta, false⟩ }
    else return { cache with run := none }

/-- The cache without the run, if that holds bytes of a range. -/
def invalidate (cache : StyleCache) (span : Span) : StyleCache :=
  match cache.run with
  | some run =>
    if span.start < run.row.stop ∧ run.row.start < span.stop then { cache with run := none }
    else cache
  | none => cache

end StyleCache

end Highlight
