/-
**What operations leave of the breaks, whatever the settings.**

Breaks stay in order between characters of the text also where they are not spaced, and where sizes are too
large for some operations. Nothing is said of operations that fail:

* `Placed.after_edit`: the breaks that an edit keeps are in order;
* `Highlighter.laid_ofSize`, `Highlighter.Laid.setGrammar`: a fresh start;
* `Highlighter.Laid.after_process`, `Highlighter.Laid.after_edit`: **what a slice of work and an edit
  leave is as it was**;
* `Highlighter.Laid.exists_checkpoint`: the break that a question begins at, which is the same for every
  hint.
-/

import Highlight.Proofs.Highlighter.Laid

namespace Highlight

open BreakIndex (Entry)

variable {grammar : Grammar} {text edited : Text} {change : Change}

/-- The breaks after an edit are in order. -/
theorem Placed.after_edit {config : Config} {front gone rest : List Entry} {restart : BreakId}
    {value : Break} (edits : Text.Edits text edited change)
    (placed : Placed grammar text config.spacing (front ++ (restart, value) :: (gone ++ rest)))
    (clear : value.position ≤ change.start)
    (beyond : ∀ entry ∈ rest, change.oldEnd < entry.2.position) :
    Placed grammar edited config.spacing
      (front ++ (restart, value) :: rest.map (BreakIndex.moveEntry change.delta)) := by
  have kept := placed.remove
  have inFront := kept.up_to
  rw [List.append_cons] at kept ⊢
  have newEnd := edits.newEnd
  have moves : ∀ entry ∈ rest, (BreakIndex.moveEntry change.delta entry).2.position +
      change.oldEnd = entry.2.position + change.newEnd := by
    intro entry member
    rw [Break.moveEntry_eq (beyond entry member).le]
    exact edits.carry_behind (beyond entry member).le
      (kept.position_le (List.mem_append_right _ member))
  refine ⟨?_, List.pairwise_append.mpr ⟨?_, ?_, ?_⟩, fun entry member => ?_⟩
  · rw [← kept.starts]
    cases front <;> rfl
  · exact (List.pairwise_append.mp kept.apart).1
  · refine List.pairwise_map.mpr ((List.pairwise_append.mp kept.apart).2.1.imp_of_mem ?_)
    intro entry other member memberOther apart
    have moved := moves entry member
    have movedOther := moves other memberOther
    omega
  · intro entry member other memberOther
    obtain ⟨old, inRest, rfl⟩ := List.mem_map.mp memberOther
    have before := inFront entry member
    have moved := moves old inRest
    have behind := beyond old inRest
    omega
  · rcases List.mem_append.mp member with before | moved
    · exact Break.good_before edits (kept.good entry (List.mem_append_left _ before))
        ((inFront entry before).trans clear)
    · obtain ⟨old, inRest, rfl⟩ := List.mem_map.mp moved
      rw [Break.moveEntry_eq (beyond old inRest).le]
      exact Break.good_carried edits (kept.good old (List.mem_append_right _ inRest))
        (beyond old inRest).le

namespace Highlighter

variable {highlighter after : Highlighter} {behind ahead front gone rest : List Entry}
  {reached value : Break} {restart : BreakId}

/-! ### Fresh starts -/

theorem laid_reset (highlighter : Highlighter) (held : text.Held)
    (wellFormed : highlighter.grammar.WellFormed) (lawful : highlighter.grammar.Lawful) :
    Laid text (highlighter.reset text.size) [] Break.first [] :=
  ⟨held, wellFormed, lawful, BreakIndex.holds_initial, .initial⟩

theorem laid_ofSize {config : Config} (held : text.Held) (wellFormed : grammar.WellFormed)
    (lawful : grammar.Lawful) : Laid text (ofSize grammar config text.size) [] Break.first [] :=
  laid_reset ⟨grammar, config, .initial, BreakIndex.first, none, none, false, none⟩ held wellFormed
    lawful

/-! ### Passes -/

/-- What every checkpoint at a place of the text keeps true of a pass is true of the one that a slice of
work has made, whatever moves its scan makes. -/
theorem exists_pass_of_process {made : ScanState → Move → Prop} (held : text.Held)
    (makes : highlighter.grammar.Makes text made)
    (holds : highlighter.breaks.Holds (behind ++ (highlighter.frontier, reached) :: ahead))
    (placed : Placed highlighter.grammar text highlighter.config.spacing
      (behind ++ (highlighter.frontier, reached) :: ahead)) {motive : Pass → Prop} {deadline : Deadline}
    (stands : ∀ {pass}, motive pass → pass.breaks.Numbered →
      ∃ low high, Pass.Stands highlighter.grammar text highlighter.config.spacing low high pass)
    (check : ∀ {pass after flow value}, motive pass →
      (pass.breaks.Numbered → value.spot.Good highlighter.grammar text) →
        Pass.checkpoint ⟨text, highlighter.config.spacing, deadline⟩ pass value = .ok (after, flow) →
          motive after)
    (begins : motive ⟨highlighter.breaks, highlighter.frontier, highlighter.restartEnd, 0, none⟩)
    {scanned : Nat} (went : highlighter.process text deadline = .ok (scanned, after)) :
    after = highlighter ∨ after.grammar = highlighter.grammar ∧ after.config = highlighter.config ∧
      ∃ pass, motive pass ∧ after.frontier = pass.frontier ∧
        (after.breaks = pass.breaks ∨ pass.breaks.truncateAfter pass.frontier = .ok after.breaks) := by
  rcases exists_run_of_process went with ⟨-, rfl⟩ |
    ⟨sameGrammar, sameConfig, unit, value, pass, state, ending, formed, found, ran, same, -, left⟩
  · exact Or.inl rfl
  have here := placed.good (highlighter.frontier, reached)
    (List.mem_append_right behind List.mem_cons_self)
  have good : (ScanState.ofBreak reached).Good highlighter.grammar text :=
    ScanState.good_startingAt here.boundary here.known
  cases holds.get_eq.symm.trans found
  have sum : text.size + highlighter.config.spacing ≤ maxSize := by
    have small := held.size_lt
    by_contra exceeds
    rw [Config.windowUnit_eq_overflow (by unfold maxSize at *; omega)] at formed
    cases formed
  have keeps := Pass.sink_keeps_placed makes
    (show (PassPlan.mk text highlighter.config.spacing deadline).text = text from rfl) sum stands check
  have ends := (Scanner.ofUnit highlighter.grammar unit).run_ends makes held keeps text.size
    (fun _ => Or.inr trivial) (Scanner.unit_pos _ _) good begins
  rw [ran] at ends
  have kept : motive pass := by
    rcases ends.2 with ⟨kept, -⟩ | ⟨kept, -⟩ <;> exact kept
  exact Or.inr ⟨sameGrammar, sameConfig, pass, kept, same, left.imp And.left And.right⟩

namespace Laid

variable (laid : Laid text highlighter behind reached ahead)
include laid

theorem setGrammar (wellFormed : grammar.WellFormed) (lawful : grammar.Lawful) :
    Laid text (highlighter.setGrammar grammar text.size) [] Break.first [] :=
  laid_reset { highlighter with grammar := grammar } laid.held wellFormed lawful

theorem takeDirty : Laid text highlighter.takeDirty.2 behind reached ahead :=
  ⟨laid.held, laid.wellFormed, laid.lawful, laid.holds, laid.placed⟩

/-! ### Work and edits -/

/-- The scan of a slice of work always gets on. -/
theorem makes : highlighter.grammar.Makes text fun state move =>
    highlighter.grammar.Stride text state move ∧ move.Short (max maxSize 4) :=
  Grammar.makes_stride laid.wellFormed laid.lawful.bounded laid.held

/-- **A slice of work that goes well leaves the breaks in order**, as long as there are numbers for all
slots. -/
theorem after_process {deadline : Deadline} {scanned : Nat}
    (went : highlighter.process text deadline = .ok (scanned, after)) (numbered : after.breaks.Numbered) :
    after.grammar = highlighter.grammar ∧ after.config = highlighter.config ∧
      ∃ front final rest, Laid text after front final rest := by
  have begins : ∃ low high, Pass.Stands highlighter.grammar text highlighter.config.spacing low high
      ⟨highlighter.breaks, highlighter.frontier, highlighter.restartEnd, 0, none⟩ :=
    ⟨_, _, behind, reached, ahead, laid.holds, laid.placed, le_rfl, le_rfl⟩
  have left := exists_pass_of_process laid.held laid.makes laid.holds laid.placed
    (motive := fun pass => pass.breaks.Numbered →
      ∃ low high, Pass.Stands highlighter.grammar text highlighter.config.spacing low high pass)
    (fun stands => stands) (fun stands good went numbered => ?_) (fun _ => begins) went
  · rcases left with rfl | ⟨sameGrammar, sameConfig, pass, stands, frontier, left⟩
    · exact ⟨rfl, rfl, behind, reached, ahead, laid⟩
    obtain ⟨held, wellFormed, lawful, -, -⟩ := laid
    rw [← sameGrammar] at wellFormed lawful stands
    rw [← sameConfig] at stands
    rcases left with same | truncated
    · obtain ⟨low, high, front, final, rest, holds, placed, -⟩ := stands (same ▸ numbered)
      rw [← frontier] at holds placed
      rw [← same] at holds
      exact ⟨sameGrammar, sameConfig, front, final, rest, held, wellFormed, lawful, holds, placed⟩
    · have size := BreakIndex.size_of_truncateAfter truncated
      obtain ⟨low, high, front, final, rest, holds, placed, -⟩ := stands (size.ge.trans numbered)
      obtain ⟨index, cut, holdsCut⟩ := holds.truncateAfter_spec
      cases truncated.symm.trans cut
      rw [← List.append_nil rest] at placed
      have placedCut := placed.remove
      rw [← frontier] at holdsCut placedCut
      exact ⟨sameGrammar, sameConfig, front, final, [], held, wellFormed, lawful, holdsCut, placedCut⟩
  · have numberedBefore := (Pass.size_le_of_checkpoint went).trans numbered
    obtain ⟨low, high, behind, reached, ahead, holds, placed, -⟩ := stands numberedBefore
    have leads := Pass.leads_of_checkpoint holds placed (good numberedBefore)
      (Pass.hasRoom_of_checkpoint holds went numbered) went
    exact ⟨_, leads.stands holds placed⟩

/-- What an edit has kept is in order. Its frontier is the restart or before it. -/
theorem of_edited (edits : Text.Edits text edited change) (heldEdited : edited.Held)
    (split : behind ++ (highlighter.frontier, reached) :: ahead =
      front ++ (restart, value) :: (gone ++ rest))
    (made : highlighter.Edited change after reached front restart value rest) :
    ∃ before final later, front ++ [(restart, value)] = before ++ (after.frontier, final) :: later ∧
      Laid edited after before final
        (later ++ rest.map (BreakIndex.moveEntry change.delta)) := by
  obtain ⟨held, wellFormed, lawful, -, placed⟩ := laid
  have starts := placed.starts
  rw [split] at placed starts
  have placedAfter := placed.after_edit edits (made.value_le_start starts) fun entry member => by
    have := made.behind entry member
    omega
  rw [← made.config, ← made.grammar] at placedAfter
  obtain ⟨before, final, later, same⟩ := made.exists_split placed.ordered split
  have holds := made.holds
  rw [List.append_cons, same, List.append_assoc, List.cons_append] at holds placedAfter
  rw [← made.grammar] at wellFormed lawful
  exact ⟨before, final, later, same, heldEdited, wellFormed, lawful, holds, placedAfter⟩

/-- **An edit that goes well leaves the breaks in order.** -/
theorem after_edit (edits : Text.Edits text edited change) (heldEdited : edited.Held)
    (went : highlighter.edit change = .ok after) :
    after.grammar = highlighter.grammar ∧ after.config = highlighter.config ∧
      ∃ front final rest, Laid edited after front final rest := by
  have small : ∀ entry ∈ behind ++ (highlighter.frontier, reached) :: ahead,
      entry.2.position ≤ maxSize := fun entry member =>
    (laid.placed.position_le member).trans laid.held.size_lt_maxSize.le
  obtain ⟨front, restart, value, gone, rest, split, made⟩ :=
    edited_of_edit laid.holds laid.placed.ordered laid.placed.starts small went
  obtain ⟨before, final, later, -, laidAfter⟩ := laid.of_edited edits heldEdited split made
  exact ⟨made.grammar, made.config, before, final, _, laidAfter⟩

omit laid in
/-- A highlighter that has only the first break keeps it. -/
theorem after_edit_first (laid : Laid text highlighter [] Break.first [])
    (edits : Text.Edits text edited change) (heldEdited : edited.Held)
    (went : highlighter.edit change = .ok after) :
    Laid edited after [] Break.first [] := by
  have small : ∀ entry ∈ [] ++ [(highlighter.frontier, Break.first)], entry.2.position ≤ maxSize :=
    fun entry member => (laid.placed.position_le member).trans laid.held.size_lt_maxSize.le
  obtain ⟨front, restart, value, gone, rest, split, made⟩ :=
    edited_of_edit laid.holds laid.placed.ordered laid.placed.starts small went
  obtain ⟨before, final, later, same, laidAfter⟩ := laid.of_edited edits heldEdited split made
  obtain ⟨rfl, here⟩ := (List.append_eq_singleton_iff.mp split.symm).resolve_right (by simp)
  obtain ⟨first, none⟩ := List.cons.inj here
  obtain ⟨rfl, rfl⟩ := List.append_eq_nil_iff.mp none
  cases first
  obtain ⟨rfl, there⟩ := (List.append_eq_singleton_iff.mp same.symm).resolve_right (by simp)
  obtain ⟨atEnd, rfl⟩ := List.cons.inj there
  obtain rfl := (Prod.mk.inj atEnd).2
  exact laidAfter

/-! ### Breaks for questions -/

/-- **There is a break before any position, and every search finds the same one.** -/
theorem exists_checkpoint (position : Nat) :
    ∃ id value, (∀ hint, highlighter.checkpointBefore hint position = .ok id) ∧
      highlighter.breaks.get id = .ok value ∧ value.spot.Good highlighter.grammar text ∧
      value.position ≤ min position reached.position := by
  have begins : ∀ entry ∈ (behind ++ (highlighter.frontier, reached) :: ahead).head?,
      entry.2.position ≤ min position reached.position := by
    intro entry atHead
    rw [laid.placed.starts] at atHead
    cases atHead
    exact Nat.zero_le _
  obtain ⟨entry, last, found⟩ := laid.holds.seekBefore_last laid.placed.ordered begins
  obtain ⟨member, before⟩ := List.mem_filter.mp (List.mem_of_getLast? last)
  refine ⟨entry.1, entry.2, fun hint => ?_, laid.holds.get_of_mem member,
    laid.placed.good _ member, by simpa using before⟩
  unfold checkpointBefore frontierPosition
  rw [laid.holds.position_eq, Fault.ok_bind, found hint]

end Laid

end Highlighter

end Highlight
