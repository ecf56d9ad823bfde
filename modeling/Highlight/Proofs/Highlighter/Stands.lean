/-
**Work and edits never fail.**

With sizes that can be added up, and regexes whose matches lie in what was searched, a slice of work and an
edit always go well, and leave the breaks in order:

* `Config.Admits`: a grammar that texts can be highlighted with under some settings;
* `Highlighter.Stands`: what is true of a highlighter and its text between two operations;
* `Highlighter.Stands.process_ends`: **a slice of work ends, unless breaks are not spaced and there is no
  deadline**, with nothing left to do or with a frontier that has advanced by the time it was over;
* `Highlighter.Stands.edit_eq_ok`: **an edit goes well**.
-/

import Highlight.Proofs.Highlighter.Keeps

namespace Highlight

open BreakIndex (Entry)

variable {grammar : Grammar} {text edited : Text} {change : Change}

/-! ### Settings and grammars -/

/-- No sum or product of the sizes of a grammar and of the settings exceeds the largest size, where it is
formed: one byte more than regexes see of the text around them, and, if there are patterns, four times the
distance that questions may have from checkpoints. -/
structure Config.Handles (config : Config) (grammar : Grammar) : Prop where
  reach : grammar.maxExtend < maxSize
  distance : grammar.hasPatterns = true → 12 * max config.spacing grammar.maxExtend ≤ maxSize

/-- A grammar that texts can be highlighted with: its numbers are those of its patterns and regexes,
matches lie in what was searched, and its sizes can be added up. -/
structure Config.Admits (config : Config) (grammar : Grammar) : Prop
    extends Config.Handles config grammar where
  wellFormed : grammar.WellFormed
  lawful : grammar.Lawful

namespace Highlighter

/-! ### A highlighter and its text -/

variable {highlighter after : Highlighter} {behind ahead : List Entry} {reached : Break}

/-- The breaks of a highlighter are in order, and its grammar is admitted. Without patterns there is only
the first break, and nothing to process. -/
structure Stands (text : Text) (highlighter : Highlighter) (behind : List Entry) (reached : Break)
    (ahead : List Entry) : Prop where
  held : text.Held
  admits : highlighter.config.Admits highlighter.grammar
  holds : highlighter.breaks.Holds (behind ++ (highlighter.frontier, reached) :: ahead)
  placed : Placed highlighter.grammar text highlighter.config.spacing
    (behind ++ (highlighter.frontier, reached) :: ahead)
  plain : highlighter.grammar.hasPatterns = false →
    behind = [] ∧ ahead = [] ∧ highlighter.needsProcessing = false

theorem stands_reset (highlighter : Highlighter) (held : text.Held)
    (admits : highlighter.config.Admits highlighter.grammar) :
    Stands text (highlighter.reset text.size) [] Break.first [] :=
  ⟨held, admits, BreakIndex.holds_initial, .initial, fun plain => ⟨rfl, rfl, plain⟩⟩

theorem stands_ofSize {config : Config} (held : text.Held) (admits : config.Admits grammar) :
    Stands text (ofSize grammar config text.size) [] Break.first [] :=
  stands_reset ⟨grammar, config, .initial, BreakIndex.first, none, none, false, none⟩ held admits

namespace Stands

variable (stands : Stands text highlighter behind reached ahead)
include stands

theorem setGrammar (admits : highlighter.config.Admits grammar) :
    Stands text (highlighter.setGrammar grammar text.size) [] Break.first [] :=
  stands_reset { highlighter with grammar := grammar } stands.held admits

theorem takeDirty : Stands text highlighter.takeDirty.2 behind reached ahead :=
  ⟨stands.held, stands.admits, stands.holds, stands.placed, stands.plain⟩

theorem frontierPosition_eq : highlighter.frontierPosition = .ok reached.position :=
  stands.holds.position_eq

theorem inText : reached.position ≤ text.size :=
  stands.placed.position_le (List.mem_append_right behind List.mem_cons_self)

/-! ### Slices of work -/

theorem laid : Laid text highlighter behind reached ahead :=
  ⟨stands.held, stands.admits.wellFormed, stands.admits.lawful, stands.holds, stands.placed⟩

/-- The sizes that a slice of work forms first are such. -/
theorem fitsWork (patterned : highlighter.grammar.hasPatterns = true) :
    FitsWork text highlighter.config reached.position := by
  have distance := stands.admits.distance patterned
  have small := stands.held.size_lt
  refine ⟨by omega, fun inside => ?_⟩
  unfold maxSize at *
  omega

/-- **A slice of work ends**, unless breaks are not spaced and there is no deadline. If something is left to
do then its time was over, and its frontier has advanced. -/
theorem process_ends (deadline : Deadline)
    (roomy : highlighter.needsProcessing = true → highlighter.RoomyFor text deadline) :
    Fault.Ends (Pass.Stalls highlighter.config.spacing deadline) (fun (_, after) =>
        after.grammar = highlighter.grammar ∧ after.config = highlighter.config ∧
        ∃ front final rest, Stands text after front final rest ∧
          (after.needsProcessing = true → deadline ≠ .never ∧ reached.position < final.position))
      (highlighter.process text deadline) := by
  cases pending : highlighter.needsProcessing with
  | false =>
    rw [process_of_idle pending]
    exact ⟨rfl, rfl, behind, reached, ahead, stands, fun working => by
      rw [pending] at working
      cases working⟩
  | true =>
    have patterned : highlighter.grammar.hasPatterns = true := by
      refine Bool.not_eq_false _ ▸ fun none => ?_
      rw [(stands.plain none).2.2] at pending
      cases pending
    refine (stands.laid.process_ends (stands.fitsWork patterned) pending deadline (roomy pending)).mono ?_
    rintro ⟨scanned, after⟩ ⟨sameGrammar, sameConfig, front, final, rest, laid, advanced⟩
    have admits : after.config.Admits after.grammar := by
      rw [sameConfig, sameGrammar]
      exact stands.admits
    refine ⟨sameGrammar, sameConfig, front, final, rest,
      ⟨laid.held, admits, laid.holds, laid.placed, fun none => ?_⟩, advanced⟩
    rw [sameGrammar, patterned] at none
    cases none

/-! ### Edits -/

/-- Without patterns no break but the first one is there. -/
theorem patterned_of_mem {entry : Entry}
    (member : entry ∈ behind ++ (highlighter.frontier, reached) :: ahead)
    (notFirst : entry.1 ≠ BreakIndex.first) : highlighter.grammar.hasPatterns = true := by
  refine Bool.not_eq_false _ ▸ fun plain => ?_
  obtain ⟨rfl, rfl, -⟩ := stands.plain plain
  have first := Option.some_inj.mp stands.placed.starts
  rw [List.mem_singleton.mp member] at notFirst
  exact notFirst (congrArg Prod.fst first)

/-- The sums that an edit forms of positions are sizes where there is more than one break. -/
theorem reach_le (patterned : highlighter.grammar.hasPatterns = true) :
    text.size + (highlighter.grammar.maxExtend + 1) ≤ maxSize := by
  have distance := stands.admits.distance patterned
  have small := stands.held.size_lt
  unfold maxSize at *
  omega

/-- No sum that an edit forms overflows. -/
theorem sums (edits : Text.Edits text edited change) :
    highlighter.Sums change (behind ++ (highlighter.frontier, reached) :: ahead) reached := by
  have small := stands.held.size_lt
  have smallAfter := edits.after_lt
  have within := Text.le_size_of_isBoundary edits.back.left
  have reachable := edits.carry_le_size stands.inText
  refine ⟨stands.admits.reach, fun entry member notFirst => ?_, ?_, fun entry member => ?_⟩
  · have sum := stands.reach_le (stands.patterned_of_mem member notFirst)
    have inText := stands.placed.position_le member
    omega
  · unfold maxSize
    omega
  · have inText := stands.placed.position_le member
    unfold maxSize
    omega

/-- **An edit goes well**, and leaves the breaks in order. -/
theorem edit_eq_ok (edits : Text.Edits text edited change) (heldEdited : edited.Held) :
    ∃ after, highlighter.edit change = .ok after ∧ after.grammar = highlighter.grammar ∧
      after.config = highlighter.config ∧
      ∃ front final rest, Stands edited after front final rest := by
  have small : ∀ entry ∈ behind ++ (highlighter.frontier, reached) :: ahead,
      entry.2.position ≤ maxSize := fun entry member =>
    (stands.placed.position_le member).trans stands.held.size_lt_maxSize.le
  have ends := edit_ends stands.holds stands.placed.ordered stands.placed.starts small change
  obtain ⟨after, went, front, restart, value, gone, rest, split, -, -, made⟩ :=
    ends.exists_ok fun fault overflows => overflows.2 (stands.sums edits)
  obtain ⟨before, final, later, same, laid⟩ := stands.laid.of_edited edits heldEdited split made
  have admits : after.config.Admits after.grammar := by
    rw [made.config, made.grammar]
    exact stands.admits
  refine ⟨after, went, made.grammar, made.config, before, final, _, heldEdited, admits, laid.holds,
    laid.placed, fun plain => ?_⟩
  have plainBefore := made.grammar ▸ plain
  obtain ⟨rfl, rfl, -⟩ := stands.plain plainBefore
  have lengths := congrArg List.length split
  have lengthsToo := congrArg List.length same
  simp only [List.length_append, List.length_cons, List.length_nil] at lengths lengthsToo
  refine ⟨List.length_eq_zero_iff.mp (by omega), List.length_eq_zero_iff.mp ?_, ?_⟩
  · rw [List.length_append, List.length_map]
    omega
  rw [made.needsProcessing]
  exact plainBefore

end Stands

end Highlighter

end Highlight
