/-
**An edit keeps the breaks where the machine gets to.**

* `Break.Visited.before`: the machine still gets to a break from which no regex sees the edit;
* `Break.LeadsTo.behind`: between two breaks behind the edit it goes on as before;
* `Highlighter.Sound.survives`: so an edit leaves enough of what is asked of the breaks;
* `Highlighter.Sound.edit_spec`: **after an edit a highlighter is as it should be for the new text**.
-/

import Highlight.Proofs.Highlighter.Process
import Highlight.Proofs.Scan.Transport

namespace Highlight

open BreakIndex (Entry)

variable {grammar : Grammar} {text edited : Text} {change : Change}

/-! ### Breaks on either side of an edit -/

namespace Break

section Lawful

variable (wellFormed : grammar.WellFormed) (isLocal : grammar.Local) (held : text.Held)
  (heldEdited : edited.Held) (edits : Text.Edits text edited change)
include wellFormed isLocal held heldEdited edits

/-- The machine still gets to a break from which no regex sees the edit. -/
theorem Visited.before {value : Break} (visited : value.Visited grammar text)
    (clear : value.position + (grammar.maxExtend + 1) ≤ change.start) :
    value.Visited grammar edited := by
  obtain ⟨styles, walk⟩ := visited
  exact ⟨styles, walk.before wellFormed isLocal held heldEdited edits.front
    (Spot.good_initial grammar text) (show value.position + grammar.maxExtend < _ by omega)⟩

/-- Behind an edit the machine goes on as it did before. -/
theorem walk_carried {value : Break} {final : Spot} {styles : List StyleId}
    (walk : grammar.Walk text value.spot styles final) (good : value.spot.Good grammar text)
    (clear : change.oldEnd + (grammar.maxExtend + 1) < value.position) :
    grammar.Walk edited (value.carried change).spot styles
      ⟨change.carry final.position, final.stack, final.used⟩ := by
  have inside : value.position ≤ text.size := good.position_le
  have ends := walk.leads wellFormed isLocal held good
  have finalInside := ends.1.position_le
  have ordered : value.position ≤ final.position := by
    have length := ends.2
    change value.position + styles.length = final.position at length
    omega
  have start := edits.carry_behind (show change.oldEnd ≤ value.position by omega) inside
  have stop := edits.carry_behind (show change.oldEnd ≤ final.position by omega) finalInside
  obtain ⟨reached, moved, aligned⟩ := walk.behind wellFormed isLocal held heldEdited edits.back
    good (show change.oldEnd + grammar.maxExtend + 1 ≤ value.position by omega)
    (show value.position + change.newEnd = change.carry value.position + change.oldEnd by omega)
  rw [show reached = change.carry final.position by omega] at moved
  exact moved

/-- Between two breaks behind an edit the machine goes on as before. -/
theorem LeadsTo.behind {value other : Break} (leads : value.LeadsTo grammar text other)
    (good : value.spot.Good grammar text)
    (clear : change.oldEnd + (grammar.maxExtend + 1) < value.position) :
    (value.carried change).LeadsTo grammar edited (other.carried change) := by
  obtain ⟨styles, walk⟩ := leads
  exact ⟨styles, walk_carried wellFormed isLocal held heldEdited edits walk good clear⟩

end Lawful

end Break

/-! ### Edits -/

namespace Highlighter

variable {kept : Break → Prop} {highlighter after : Highlighter} {behind ahead : List Entry}
  {reached : Break}

/-- What is `kept` of old breaks that may be relied on becomes what is `keptAfter` an edit. -/
def Carries (text : Text) (kept keptAfter : Break → Prop) (highlighter : Highlighter)
    (change : Change) : Prop :=
  ∀ value : Break, value.spot.Good highlighter.grammar text →
    change.oldEnd + (highlighter.grammar.maxExtend + 1) < value.position →
      highlighter.needsProcessing = false ∧ value.Visited highlighter.grammar text ∨ kept value →
        keptAfter (value.carried change)

namespace Sound

variable (sound : Sound text kept highlighter behind reached ahead)
include sound

/-- The machine gets to every break up to the frontier. -/
theorem visited_of_le {entry : Entry}
    (member : entry ∈ behind ++ (highlighter.frontier, reached) :: ahead)
    (inFront : entry.2.position ≤ reached.position) :
    entry.2.Visited highlighter.grammar text := sound.reached_of_le member inFront

/-- An edit leaves enough of the breaks. -/
theorem survives (heldEdited : edited.Held) (edits : Text.Edits text edited change)
    {keptAfter : Break → Prop} (carries : Carries text kept keptAfter highlighter change) :
    Survives text edited (Break.visits highlighter.grammar text kept)
      (Break.visits highlighter.grammar edited keptAfter) highlighter change where
  first := Break.visited_first
  reached := fun _ visited clear =>
    visited.before sound.wellFormed sound.isLocal sound.held heldEdited edits clear
  passed := fun visited visitedToo before _ =>
    visited.leadsTo sound.wellFormed sound.isLocal heldEdited visitedToo before
  linked := fun good _ _ clear leads =>
    leads.behind sound.wellFormed sound.isLocal sound.held heldEdited edits good clear
  kept := fun good clear => carries _ good clear
  last := fun _ _ _ => trivial

/-- **After an edit a highlighter is as it should be for the new text**, if what was kept of the breaks
that could be relied on is carried along. -/
theorem edit_spec (edits : Text.Edits text edited change) (heldEdited : edited.Held)
    (keptAfter : Break → Prop) (carries : Carries text kept keptAfter highlighter change)
    (went : highlighter.edit change = .ok after) :
    ∃ start front final rest, Sound edited keptAfter after front final rest ∧
      Restarted edited (Break.visits highlighter.grammar edited keptAfter) highlighter reached change
        after start front final rest := by
  obtain ⟨start, front, final, rest, made⟩ := sound.toCharted.edit_spec edits heldEdited
    (sound.survives heldEdited edits carries) went
  refine ⟨start, front, final, rest, ⟨?_, ?_, ?_⟩, made⟩
  · rw [made.grammar]
    exact made.charted
  · exact made.grammar ▸ sound.wellFormed
  · exact made.grammar ▸ sound.isLocal

end Sound

end Highlighter

end Highlight
