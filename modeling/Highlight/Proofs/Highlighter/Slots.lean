/-
**The index of a highlighter does not outgrow its text.**

A slot is made only where there is no free one, and spaced breaks are at different positions. So there is a
slot for each byte of the longest text at most, and one more. A slice of work makes no more slots than its
deadline allows, and no more than spaced breaks fit in the text:

* `Pass.Fills`: the breaks of a pass are placed, in so many slots at most;
* `Highlighter.Laid.slots_of_process`, `Highlighter.slots_of_edit`: **neither work nor edits make more slots
  than the text calls for**;
* `Highlighter.Laid.slots_of_stores`: **a slice of work makes no more slots than it may need for breaks**.
-/

import Highlight.Proofs.Break.Operations
import Highlight.Proofs.Highlighter.Process
import Highlight.Proofs.Highlighter.Keeps
import Highlight.Proofs.Scan.Trace

namespace Highlight

open BreakIndex (Entry)

variable {grammar : Grammar} {text : Text}

/-! ### Passes -/

namespace Pass

/-- The breaks of a pass are placed, in no more slots than `most`. -/
structure Fills (grammar : Grammar) (text : Text) (spacing most : Nat) (pass : Pass) : Prop where
  stands : ∃ low high, Stands grammar text spacing low high pass
  slots : pass.breaks.nodes.size ≤ most

variable {plan : PassPlan} {pass after : Pass} {flow : Flow} {most : Nat}

/-- A checkpoint makes no slot that the breaks behind it do not fill. -/
theorem Fills.checkpoint {value : Break} (fills : Fills grammar text plan.spacing most pass)
    (sameText : plan.text = text) (spaced : 0 < plan.spacing) (enough : text.size + 1 ≤ most)
    (small : most ≤ BreakIndex.idRange) (good : value.spot.Good grammar text)
    (went : Pass.checkpoint plan pass value = .ok (after, flow)) :
    Fills grammar text plan.spacing most after := by
  obtain ⟨⟨low, high, behind, reached, ahead, holds, placed, -⟩, few⟩ := fills
  have roomy : Roomy plan 1 pass := Or.inl ⟨spaced, sameText ▸ enough.trans small⟩
  have leads := leads_of_checkpoint holds placed good
    (roomy.hasRoom sameText holds placed good) went
  obtain ⟨further, stands⟩ := leads.stands holds placed
  refine ⟨⟨_, further, stands⟩, ?_⟩
  rcases breaks_of_checkpoint went with ⟨rfl, -⟩ | ⟨result, stored, -⟩
  · exact few
  · obtain ⟨front, final, rest, holdsAfter, placedAfter, -⟩ := stands
    have slots := (BreakIndex.grows_of_setBreak stored).size_le_max holdsAfter
    have breaks := placedAfter.length_le spaced
    exact slots.trans (max_le few (breaks.trans enough))

/-- **A scan stores no more breaks than there are slots for**, three for each byte of the text that is left
where there is no deadline. -/
theorem sink_affords {made : ScanState → Move → Prop} (makes : grammar.Makes text made) (slots : Nat) :
    (sink plan).Keeps grammar text made
      (fun pass state => Affords plan slots (3 * (text.size - state.position)) pass)
      fun pass _ => pass.breaks.nodes.size ≤ slots := by
  constructor
  · exact fun _ affords isMade silent => (makes.stride isMade).silent silent ▸ affords
  · intro pass state move token after flow _ affords isMade delivered went
    have stride := makes.stride isMade
    have starts := (stride.token token delivered).2.1
    have spends := Affords.sink (starts ▸ affords) (starts.trans_lt (stride.lt delivered))
      stride.good.position_le went
    cases flow <;> exact spends

end Pass

/-! ### Work and edits -/

namespace Highlighter

variable {highlighter after : Highlighter} {behind ahead : List Entry} {reached : Break} {most : Nat}

/-- **Work makes no more slots than the text calls for**, if breaks are spaced, whatever moves its scan
makes. -/
theorem slots_of_process {made : ScanState → Move → Prop} (held : text.Held)
    (makes : highlighter.grammar.Makes text made)
    (holds : highlighter.breaks.Holds (behind ++ (highlighter.frontier, reached) :: ahead))
    (placed : Placed highlighter.grammar text highlighter.config.spacing
      (behind ++ (highlighter.frontier, reached) :: ahead))
    (spaced : 0 < highlighter.config.spacing) (enough : text.size + 1 ≤ most)
    (small : most ≤ BreakIndex.idRange) (few : highlighter.breaks.nodes.size ≤ most)
    {deadline : Deadline} {scanned : Nat}
    (went : highlighter.process text deadline = .ok (scanned, after)) :
    after.breaks.nodes.size ≤ most := by
  have begins : Pass.Fills highlighter.grammar text highlighter.config.spacing most
      ⟨highlighter.breaks, highlighter.frontier, highlighter.restartEnd, 0, none⟩ :=
    ⟨⟨_, _, behind, reached, ahead, holds, placed, le_rfl, le_rfl⟩, few⟩
  rcases exists_pass_of_process held makes holds placed (fun fills _ => fills.stands)
    (fun fills good went => fills.checkpoint rfl spaced enough small
      (good (fills.slots.trans small)) went) begins went with
    rfl | ⟨-, -, pass, fills, -, left⟩
  · exact few
  · rcases left with same | truncated
    · exact same ▸ fills.slots
    · exact (BreakIndex.size_of_truncateAfter truncated).trans_le fills.slots

theorem Laid.slots_of_process (laid : Laid text highlighter behind reached ahead)
    (spaced : 0 < highlighter.config.spacing) (enough : text.size + 1 ≤ most)
    (small : most ≤ BreakIndex.idRange) (few : highlighter.breaks.nodes.size ≤ most)
    {deadline : Deadline} {scanned : Nat}
    (went : highlighter.process text deadline = .ok (scanned, after)) :
    after.breaks.nodes.size ≤ most :=
  Highlighter.slots_of_process laid.held laid.makes laid.holds laid.placed spaced enough small few went

/-- The breaks that a scan has come to are placed if they are as they should be. -/
theorem Charted.placed {demands : Demands}
    (charted : Charted text demands highlighter behind reached ahead) :
    Placed highlighter.grammar text highlighter.config.spacing
      (behind ++ (highlighter.frontier, reached) :: ahead) := by
  have tracks := charted.tracks
  refine ⟨tracks.starts, tracks.sorted.imp fun ordered => ?_, tracks.good⟩
  have := charted.spaced
  omega

/-- Nor does it under grammars whose regexes see only so far. -/
theorem Sound.slots_of_process {kept : Break → Prop}
    (sound : Sound text kept highlighter behind reached ahead) (enough : text.size + 1 ≤ most)
    (small : most ≤ BreakIndex.idRange) (few : highlighter.breaks.nodes.size ≤ most)
    {deadline : Deadline} {scanned : Nat}
    (went : highlighter.process text deadline = .ok (scanned, after)) :
    after.breaks.nodes.size ≤ most :=
  Highlighter.slots_of_process sound.held (Grammar.makes_leg sound.wellFormed sound.isLocal sound.held)
    sound.tracks.holds sound.placed sound.spaced enough small few went

/-- A slice of work makes no more slots than its deadline allows, three for each byte if it has none. -/
theorem Laid.slots_of_deadline (laid : Laid text highlighter behind reached ahead) {deadline : Deadline}
    {scanned : Nat} (went : highlighter.process text deadline = .ok (scanned, after)) :
    after.breaks.nodes.size ≤ highlighter.breaks.nodes.size + deadline.stores (3 * text.size) 0 := by
  rcases exists_run_of_process went with ⟨-, rfl⟩ |
    ⟨-, -, unit, value, pass, state, ending, formed, found, ran, -, -, left⟩
  · exact Nat.le_add_right _ _
  have good := laid.good
  cases laid.holds.get_eq.symm.trans found
  have begins : Pass.Affords ⟨text, highlighter.config.spacing, deadline⟩
      (highlighter.breaks.nodes.size + deadline.stores (3 * text.size) 0)
      (3 * (text.size - (ScanState.ofBreak reached).position))
      ⟨highlighter.breaks, highlighter.frontier, highlighter.restartEnd, 0, none⟩ :=
    Pass.Affords.mono le_rfl fun _ => Nat.mul_le_mul_left 3 (Nat.sub_le _ _)
  have ends := (Scanner.ofUnit highlighter.grammar unit).run_ends laid.makes laid.held
    (Pass.sink_affords laid.makes _) text.size (fun _ => Or.inr trivial) (Scanner.unit_pos _ _) good begins
  rw [ran] at ends
  have slots : pass.breaks.nodes.size ≤
      highlighter.breaks.nodes.size + deadline.stores (3 * text.size) 0 := by
    rcases ends.2 with ⟨affords, -⟩ | ⟨few, -⟩
    · exact affords.size_le
    · exact few
  rcases left with ⟨same, -⟩ | ⟨-, truncated⟩
  · exact same ▸ slots
  · exact (BreakIndex.size_of_truncateAfter truncated).trans_le slots

/-- A slice of work makes no more slots than spaced breaks fit in the text. -/
theorem Laid.slots_of_spacing (laid : Laid text highlighter behind reached ahead)
    (spaced : 0 < highlighter.config.spacing)
    (room : highlighter.breaks.nodes.size + text.size / highlighter.config.spacing ≤ BreakIndex.idRange)
    {deadline : Deadline} {scanned : Nat}
    (went : highlighter.process text deadline = .ok (scanned, after)) :
    after.breaks.nodes.size ≤
      highlighter.breaks.nodes.size + text.size / highlighter.config.spacing := by
  have begins : Pass.Spares ⟨text, highlighter.config.spacing, deadline⟩
      (highlighter.breaks.nodes.size + text.size / highlighter.config.spacing)
      ⟨highlighter.breaks, highlighter.frontier, highlighter.restartEnd, 0, none⟩ :=
    ⟨spaced, reached.position, laid.holds.position_eq,
      Nat.add_le_add_left (Nat.div_le_div_right (Nat.sub_le _ _)) _⟩
  have stands : ∃ low high, Pass.Stands highlighter.grammar text highlighter.config.spacing low high
      ⟨highlighter.breaks, highlighter.frontier, highlighter.restartEnd, 0, none⟩ :=
    ⟨_, _, behind, reached, ahead, laid.holds, laid.placed, le_rfl, le_rfl⟩
  have left := exists_pass_of_process laid.held laid.makes laid.holds laid.placed (motive := fun pass =>
    (∃ low high, Pass.Stands highlighter.grammar text highlighter.config.spacing low high pass) ∧
      Pass.Spares ⟨text, highlighter.config.spacing, deadline⟩
        (highlighter.breaks.nodes.size + text.size / highlighter.config.spacing) pass)
    (fun kept _ => kept.1) ?_ ⟨stands, begins⟩ went
  · rcases left with rfl | ⟨-, -, pass, ⟨-, spares⟩, -, same | truncated⟩
    · exact Nat.le_add_right _ _
    · exact same ▸ spares.size_le
    · exact (BreakIndex.size_of_truncateAfter truncated).trans_le spares.size_le
  · rintro pass next flow value ⟨⟨low, high, front, here, back, holds, placed, -⟩, spares⟩ good went
    have roomy : Pass.Roomy ⟨text, highlighter.config.spacing, deadline⟩ 1 pass :=
      Or.inr (Or.inr (spares.mono room))
    have goodHere := good (spares.size_le.trans room)
    have leads := Pass.leads_of_checkpoint holds placed goodHere
      (roomy.hasRoom rfl holds placed goodHere) went
    obtain ⟨further, standsAfter⟩ := leads.stands holds placed
    exact ⟨⟨_, further, standsAfter⟩,
      leads.spares holds (Pass.grows_of_checkpoint went) goodHere.position_le spares⟩

/-- **A slice of work makes no more slots than it may need for breaks**, as long as there are numbers for
these. -/
theorem Laid.slots_of_stores (laid : Laid text highlighter behind reached ahead) {deadline : Deadline}
    (room : highlighter.breaks.nodes.size + highlighter.config.stores text deadline ≤ BreakIndex.idRange)
    {scanned : Nat} (went : highlighter.process text deadline = .ok (scanned, after)) :
    after.breaks.nodes.size ≤
      highlighter.breaks.nodes.size + highlighter.config.stores text deadline := by
  rcases highlighter.config.stores_cases text deadline with same | ⟨spaced, same⟩
  · rw [same]
    exact laid.slots_of_deadline went
  · rw [same] at room ⊢
    exact laid.slots_of_spacing spaced room went

/-- A slice of work makes no slot less. -/
theorem slots_le_of_process {deadline : Deadline} {scanned : Nat}
    (went : highlighter.process text deadline = .ok (scanned, after)) :
    highlighter.breaks.nodes.size ≤ after.breaks.nodes.size := by
  rcases exists_run_of_process went with ⟨-, rfl⟩ |
    ⟨-, -, unit, value, pass, state, ending, -, -, ran, -, -, left⟩
  · exact le_rfl
  have slots : highlighter.breaks.nodes.size ≤ pass.breaks.nodes.size :=
    Scanner.run_invariant
      (motive := fun pass : Pass => highlighter.breaks.nodes.size ≤ pass.breaks.nodes.size)
      (fun slots taken => slots.trans (Pass.size_le_of_sink taken)) le_rfl ran
  rcases left with ⟨same, -⟩ | ⟨-, truncated⟩
  · exact same ▸ slots
  · exact slots.trans (BreakIndex.size_of_truncateAfter truncated).ge

/-- **An edit makes no slots.** -/
theorem slots_of_edit {change : Change} (few : highlighter.breaks.nodes.size ≤ most)
    (went : highlighter.edit change = .ok after) : after.breaks.nodes.size ≤ most :=
  (edit_keeps (motive := fun index => index.nodes.size ≤ most)
    (fun few deleted => (BreakIndex.size_of_deleteRange deleted).trans_le few)
    (fun few moved => (BreakIndex.size_of_shiftFrom moved).trans_le few) few went).2.2

end Highlighter

end Highlight
