/-
**Highlighters that any operations have led to.**

A highlighter begins with a text and is told of every edit of it. In between it works for slices of time
and is asked what has changed. Of the regexes of its grammars it is only known that their matches lie in
what was searched:

* `Highlighter.Reachable`: such a highlighter, with its text as it is now;
* `Highlighter.Reachable.spread`: **its breaks are in order**, the frontier is one of them, and they are
  no further apart than a match may be long;
* `Highlighter.Reachable.numbered_of_process`: there always are numbers for the breaks of a text that is not
  too long.
-/

import Highlight.Proofs.Highlighter.Slots
import Highlight.Proofs.Highlighter.Spread

namespace Highlight.Highlighter

/-- A highlighter of a text that any edits, slices of work, changes of the grammar and questions for what
has changed have led to. No text gets too long to be held, and there are numbers for all slots of the
index, as there always are for texts of less than `2 ^ 32` bytes (`Reachable.numbered_of_process`). -/
inductive Reachable : Text → Highlighter → Prop where
  | fresh {text : Text} {grammar : Grammar} {config : Config} (held : text.Held)
      (wellFormed : grammar.WellFormed) (lawful : grammar.Lawful) (spaced : 1 ≤ config.spacing) :
      Reachable text (ofSize grammar config text.size)
  | edit {text edited : Text} {highlighter after : Highlighter} {start stop : Nat}
      {inserted : String} {change : Change} (before : Reachable text highlighter)
      (replaced : text.replace start stop inserted = .ok (edited, change))
      (small : edited.size < 2 ^ 63) (went : highlighter.edit change = .ok after) :
      Reachable edited after
  | process {text : Text} {highlighter after : Highlighter} {deadline : Deadline} {scanned : Nat}
      (before : Reachable text highlighter)
      (went : highlighter.process text deadline = .ok (scanned, after))
      (numbered : after.breaks.Numbered) : Reachable text after
  | setGrammar {text : Text} {highlighter : Highlighter} {grammar : Grammar}
      (before : Reachable text highlighter) (wellFormed : grammar.WellFormed)
      (lawful : grammar.Lawful) : Reachable text (highlighter.setGrammar grammar text.size)
  | takeDirty {text : Text} {highlighter : Highlighter} (before : Reachable text highlighter) :
      Reachable text highlighter.takeDirty.2

variable {text : Text} {highlighter after : Highlighter} {behind ahead : List BreakIndex.Entry}
  {reached : Break}

/-- **The breaks are in order**, and the frontier is one of them. -/
theorem Reachable.spread (reachable : Reachable text highlighter) :
    ∃ behind reached ahead, Spread text (fun _ => maxSize) highlighter behind reached ahead := by
  induction reachable with
  | fresh held wellFormed lawful spaced =>
    exact ⟨_, _, _, spread_ofSize wellFormed lawful.bounded held spaced⟩
  | edit before replaced small went ih =>
    obtain ⟨behind, reached, ahead, spread⟩ := ih
    exact (spread.edit (Text.edits_of_replace spread.held small replaced)
      (Text.held_of_replace spread.held small replaced) went).2
  | process before went numbered ih =>
    obtain ⟨behind, reached, ahead, spread⟩ := ih
    exact (spread.process went numbered).2
  | setGrammar before wellFormed lawful ih =>
    obtain ⟨behind, reached, ahead, spread⟩ := ih
    exact ⟨_, _, _, spread.setGrammar wellFormed lawful.bounded⟩
  | takeDirty before ih =>
    obtain ⟨behind, reached, ahead, spread⟩ := ih
    exact ⟨behind, reached, ahead, spread.takeDirty⟩

/-- Breaks that are in order and not too far apart are placed. -/
theorem Spread.laid (spread : Spread text (fun _ => maxSize) highlighter behind reached ahead) :
    Laid text highlighter behind reached ahead := by
  exact ⟨spread.held, spread.wellFormed, spread.bounded.imp fun _ matcher => matcher.lawful,
    spread.tracks.holds, spread.placed⟩

/-- There are numbers for all slots. -/
theorem Reachable.numbered (reachable : Reachable text highlighter) : highlighter.breaks.Numbered := by
  have one : 1 ≤ BreakIndex.idRange := by decide
  induction reachable with
  | fresh => exact one
  | edit before replaced small went ih => exact slots_of_edit ih went
  | process before went numbered => exact numbered
  | setGrammar => exact one
  | takeDirty before ih => exact ih

/-- **In a text that is not too long there always are**, however much work is done. -/
theorem Reachable.numbered_of_process (reachable : Reachable text highlighter)
    (short : text.size < 2 ^ 32) {deadline : Deadline} {scanned : Nat}
    (went : highlighter.process text deadline = .ok (scanned, after)) : after.breaks.Numbered := by
  obtain ⟨behind, reached, ahead, spread⟩ := reachable.spread
  exact spread.laid.slots_of_process spread.spaced short le_rfl reachable.numbered went

end Highlight.Highlighter
