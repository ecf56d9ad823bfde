/-
**A slice of work keeps the breaks where the machine gets to.**

* `Highlighter.Sound`: **what is true of a highlighter and its text** between two operations, under a
  local grammar;
* `Highlighter.sound_ofSize`: it is true at the start;
* `Highlighter.Sound.process_spec`: a slice of work keeps it true, and tells where it has been.
-/

import Highlight.Proofs.Highlighter.Charted
import Highlight.Proofs.Highlighter.Pass

namespace Highlight

open BreakIndex (Entry)

namespace Highlighter

/-- A highlighter whose breaks fit a text as far as they should. Where there is nothing left to
process, all of them do. -/
structure Sound (text : Text) (kept : Break → Prop) (highlighter : Highlighter)
    (behind : List Entry) (reached : Break) (ahead : List Entry) : Prop
    extends Charted text (Break.visits highlighter.grammar text kept) highlighter behind reached
      ahead where
  wellFormed : highlighter.grammar.WellFormed
  isLocal : highlighter.grammar.Local

variable {text : Text} {kept : Break → Prop} {highlighter after : Highlighter}
  {behind ahead : List Entry} {reached : Break}

/-- What is kept of old breaks may be weakened. -/
theorem Sound.imp (sound : Sound text kept highlighter behind reached ahead) {other : Break → Prop}
    (implies : ∀ value, kept value → other value) :
    Sound text other highlighter behind reached ahead :=
  { sound with
    tracks := { sound.tracks with
      kept := fun entry member restarted => implies _ (sound.tracks.kept entry member restarted) } }

/-- After a fresh start a highlighter is sound. -/
theorem sound_reset (highlighter : Highlighter) (wellFormed : highlighter.grammar.WellFormed)
    (isLocal : highlighter.grammar.Local) (held : text.Held) (spaced : 0 < highlighter.config.spacing)
    (kept : Break → Prop) :
    Sound text kept (highlighter.reset text.size) [] Break.first [] :=
  ⟨charted_reset highlighter held spaced Break.visited_first, wellFormed, isLocal⟩

theorem sound_ofSize {grammar : Grammar} {config : Config} (wellFormed : grammar.WellFormed)
    (isLocal : grammar.Local) (held : text.Held) (spaced : 0 < config.spacing)
    (kept : Break → Prop) :
    Sound text kept (ofSize grammar config text.size) [] Break.first [] :=
  ⟨charted_ofSize grammar held spaced Break.visited_first, wellFormed, isLocal⟩

theorem Sound.setGrammar (sound : Sound text kept highlighter behind reached ahead)
    {grammar : Grammar} (wellFormed : grammar.WellFormed) (isLocal : grammar.Local)
    (other : Break → Prop) :
    Sound text other (highlighter.setGrammar grammar text.size) [] Break.first [] :=
  sound_reset { highlighter with grammar := grammar } wellFormed isLocal sound.held sound.spaced other

/-- What may have changed has no part in this. -/
theorem Sound.takeDirty (sound : Sound text kept highlighter behind reached ahead) :
    Sound text kept highlighter.takeDirty.2 behind reached ahead :=
  ⟨sound.toCharted.takeDirty, sound.wellFormed, sound.isLocal⟩

/-- **A slice of work keeps the breaks as they should be**, as long as there are numbers for all slots. -/
theorem Sound.process_spec (sound : Sound text kept highlighter behind reached ahead)
    (pending : highlighter.needsProcessing = true) {deadline : Deadline} {scanned : Nat}
    (went : highlighter.process text deadline = .ok (scanned, after))
    (numbered : after.breaks.Numbered) :
    ∃ stop front final rest, Sound text kept after front final rest ∧
      Worked text (Break.visits highlighter.grammar text kept) True highlighter reached after stop
        front final rest := by
  obtain ⟨stop, front, final, rest, worked⟩ := sound.toCharted.process_spec
    (Break.suits_visits sound.wellFormed sound.isLocal sound.held kept _) (fun _ => trivial) pending
    went numbered
  refine ⟨stop, front, final, rest, ⟨?_, ?_, ?_⟩, worked⟩
  · rw [worked.grammar]
    exact worked.charted
  · exact worked.grammar ▸ sound.wellFormed
  · exact worked.grammar ▸ sound.isLocal

/-- After a slice of work a highlighter is as it should be, also if there was nothing to do. -/
theorem Sound.process (sound : Sound text kept highlighter behind reached ahead)
    {deadline : Deadline} {scanned : Nat} (went : highlighter.process text deadline = .ok (scanned, after))
    (numbered : after.breaks.Numbered) :
    after.grammar = highlighter.grammar ∧
      ∃ behind reached ahead, Sound text kept after behind reached ahead := by
  cases pending : highlighter.needsProcessing with
  | false =>
    rw [process_of_idle pending] at went
    cases went
    exact ⟨rfl, behind, reached, ahead, sound⟩
  | true =>
    obtain ⟨stop, front, final, rest, after, worked⟩ := sound.process_spec pending went numbered
    exact ⟨worked.grammar, front, final, rest, after⟩

end Highlighter

end Highlight
