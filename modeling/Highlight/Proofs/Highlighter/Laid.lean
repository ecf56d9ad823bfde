/-
**A slice of work ends.**

All that a slice of work rests on is that the breaks are in order between characters of the text, and that
matches lie in what was searched. It overflows only where it forms the size of what it searches at a time,
or the end of the first search:

* `Highlighter.Laid`: what a slice of work rests on;
* `Highlighter.FitsWork`: the two sizes that it forms first can be formed;
* `Highlighter.RoomyFor`: there are numbers for the breaks that it stores;
* `Highlighter.Laid.process_ends`: **then a slice of work ends, unless breaks are not spaced and there is no
  deadline**, with nothing left to do or with a frontier that has advanced by the time it was over;
* `Highlighter.Laid.process_eq_overflow`: if those sizes cannot be formed, it overflows.
-/

import Highlight.Proofs.Highlighter.Charted
import Highlight.Proofs.Highlighter.Placed
import Highlight.Proofs.Scan.Lawful
import Highlight.Proofs.Scan.Resume

namespace Highlight

open BreakIndex (Entry)

theorem Config.windowUnit_eq {config : Config} (small : 4 * config.spacing ≤ maxSize) :
    config.windowUnit = .ok (max minWindowUnit (4 * config.spacing)) := by
  unfold windowUnit
  rw [checkedMul_eq_ok small]
  rfl

theorem Config.windowUnit_eq_overflow {config : Config} (large : ¬ 4 * config.spacing ≤ maxSize) :
    config.windowUnit = .error .overflow := by
  unfold windowUnit
  rw [checkedMul_eq_overflow large]
  rfl

/-- For how many breaks a slice of work may need new slots: no more than the deadline allows, three for each
byte if there is none, and no more than fit in the text if they are spaced. -/
def Config.stores (config : Config) (text : Text) (deadline : Deadline) : Nat :=
  if config.spacing = 0 then deadline.stores (3 * text.size) 0
  else min (deadline.stores (3 * text.size) 0) (text.size / config.spacing)

theorem Config.stores_le (config : Config) (text : Text) (deadline : Deadline) :
    config.stores text deadline ≤ deadline.stores (3 * text.size) 0 := by
  unfold stores
  split
  · exact le_rfl
  · exact min_le_left _ _

theorem Config.stores_le_div {config : Config} (spaced : 0 < config.spacing) (text : Text)
    (deadline : Deadline) : config.stores text deadline ≤ text.size / config.spacing := by
  unfold stores
  rw [if_neg spaced.ne']
  exact min_le_right _ _

/-- What bounds the breaks is the deadline, or the length of the text. -/
theorem Config.stores_cases (config : Config) (text : Text) (deadline : Deadline) :
    config.stores text deadline = deadline.stores (3 * text.size) 0 ∨
      0 < config.spacing ∧ config.stores text deadline = text.size / config.spacing := by
  unfold stores
  split
  · exact Or.inl rfl
  · rename_i spaced
    rcases le_total (deadline.stores (3 * text.size) 0) (text.size / config.spacing) with le | ge
    · exact Or.inl (min_eq_left le)
    · exact Or.inr ⟨Nat.pos_of_ne_zero spaced, min_eq_right ge⟩

namespace Highlighter

variable {text : Text} {highlighter after : Highlighter} {behind ahead : List Entry}
  {reached : Break}

/-- The breaks of a highlighter are in order between characters of its text, the frontier is the one at
`reached`, and the matches of its grammar lie in what was searched. -/
structure Laid (text : Text) (highlighter : Highlighter) (behind : List Entry) (reached : Break)
    (ahead : List Entry) : Prop where
  held : text.Held
  wellFormed : highlighter.grammar.WellFormed
  lawful : highlighter.grammar.Lawful
  holds : highlighter.breaks.Holds (behind ++ (highlighter.frontier, reached) :: ahead)
  placed : Placed highlighter.grammar text highlighter.config.spacing
    (behind ++ (highlighter.frontier, reached) :: ahead)

/-- The size of what is searched at a time can be formed, and so can the end of a search that begins at
`position`, unless there is nothing to search. -/
structure FitsWork (text : Text) (config : Config) (position : Nat) : Prop where
  unit : 4 * config.spacing ≤ maxSize
  window : position < text.size → position + 4 * config.spacing ≤ maxSize

/-- There are numbers for all breaks that a slice of work may store: breaks are spaced and the text is
short, or there are for as many as may need new slots. -/
def RoomyFor (text : Text) (highlighter : Highlighter) (deadline : Deadline) : Prop :=
  0 < highlighter.config.spacing ∧ text.size < BreakIndex.idRange ∨
    highlighter.breaks.nodes.size + highlighter.config.stores text deadline ≤ BreakIndex.idRange

/-- Then the end of the first window that a slice of work searches is a size. -/
theorem FitsWork.add_unit_le {config : Config} {position : Nat} (fits : FitsWork text config position)
    (held : text.Held) (grammar : Grammar) (inside : position < text.size) :
    position + (Scanner.ofUnit grammar (max Config.minWindowUnit (4 * config.spacing))).unit ≤
      maxSize := by
  have small := held.size_lt
  have window := fits.window inside
  show position + max (max 3000 (4 * config.spacing)) 1 ≤ maxSize
  unfold maxSize at *
  omega

namespace Laid

variable (laid : Laid text highlighter behind reached ahead)
include laid

/-- The scan of a slice of work begins in a good state. -/
theorem good : (ScanState.ofBreak reached).Good highlighter.grammar text := by
  have good := laid.placed.good (highlighter.frontier, reached)
    (List.mem_append_right behind List.mem_cons_self)
  exact ScanState.good_startingAt good.boundary good.known

/-- The pass of a slice of work ends, unless breaks are not spaced and there is no deadline: at the end of
the text, or early. -/
theorem pass_ends (fits : FitsWork text highlighter.config reached.position) {deadline : Deadline}
    (roomy : highlighter.RoomyFor text deadline) :
    Fault.Ends (Pass.Stalls highlighter.config.spacing deadline) (fun (pass, state, ending) =>
        (∃ high, Pass.Stands highlighter.grammar text highlighter.config.spacing reached.position high
          pass) ∧ pass.interrupt = none ∧ ending = .endOfText ∨
        Pass.Ended highlighter.grammar text ⟨text, highlighter.config.spacing, deadline⟩
          reached.position state.position pass)
      ((Scanner.ofUnit highlighter.grammar
          (max Config.minWindowUnit (4 * highlighter.config.spacing))).run text
        (Pass.sink ⟨text, highlighter.config.spacing, deadline⟩) text.size (ScanState.ofBreak reached)
        ⟨highlighter.breaks, highlighter.frontier, highlighter.restartEnd, 0, none⟩) := by
  have good := laid.good
  obtain ⟨held, wellFormed, lawful, holds, placed⟩ := laid
  have small := held.size_lt
  have unit := fits.unit
  have makes := Grammar.makes_stride wellFormed lawful.bounded held
  have sameText : (PassPlan.mk text highlighter.config.spacing deadline).text = text := rfl
  have sum : text.size + highlighter.config.spacing ≤ maxSize := by
    unfold maxSize at *
    omega
  have minds := Pass.sink_minds makes sameText sum reached.position
  have begun : Pass.Stands highlighter.grammar text highlighter.config.spacing reached.position
      (ScanState.ofBreak reached).position
      ⟨highlighter.breaks, highlighter.frontier, highlighter.restartEnd, 0, none⟩ :=
    ⟨behind, reached, ahead, holds, placed, le_rfl, le_rfl⟩
  have room : Pass.Roomy ⟨text, highlighter.config.spacing, deadline⟩
      (3 * (text.size - (ScanState.ofBreak reached).position))
      ⟨highlighter.breaks, highlighter.frontier, highlighter.restartEnd, 0, none⟩ := by
    refine roomy.imp_right fun few => ?_
    rcases highlighter.config.stores_cases text deadline with same | ⟨spaced, same⟩ <;> rw [same] at few
    · exact Or.inl (Pass.Affords.mono few fun _ => Nat.mul_le_mul_left 3 (Nat.sub_le _ _))
    · refine Or.inr ⟨spaced, reached.position, holds.position_eq, ?_⟩
      exact (Nat.add_le_add_left (Nat.div_le_div_right (Nat.sub_le _ _)) _).trans few
  have ends := (Scanner.ofUnit highlighter.grammar
    (max Config.minWindowUnit (4 * highlighter.config.spacing))).run_minds
    makes held minds text.size (fits.add_unit_le held highlighter.grammar)
    (Nat.le_max_right _ 1) good ⟨begun, rfl, room⟩
  refine Fault.Ends.mono ends ?_
  rintro ⟨pass, state, ending⟩ ⟨-, ⟨⟨stands, running, -⟩, further, ended⟩ | ⟨ended, -⟩⟩
  · rw [min_self] at further
    exact Or.inl ⟨⟨_, stands⟩, running, ended.mpr further⟩
  · exact Or.inr ended

/-- **A slice of work ends**, unless breaks are not spaced and there is no deadline. If something is left to
do then its time was over, and its frontier has advanced. -/
theorem process_ends (fits : FitsWork text highlighter.config reached.position)
    (pending : highlighter.needsProcessing = true) (deadline : Deadline)
    (roomy : highlighter.RoomyFor text deadline) :
    Fault.Ends (Pass.Stalls highlighter.config.spacing deadline) (fun (_, after) =>
        after.grammar = highlighter.grammar ∧ after.config = highlighter.config ∧
        ∃ front final rest, Laid text after front final rest ∧
          (after.needsProcessing = true → deadline ≠ .never ∧ reached.position < final.position))
      (highlighter.process text deadline) := by
  have ends := laid.pass_ends fits roomy
  obtain ⟨held, wellFormed, lawful, holds, -⟩ := laid
  rcases highlighter with
    ⟨grammar, config, breaks, frontier, restartEnd, lastRestart, needsProcessing, dirty⟩
  simp only at wellFormed lawful holds pending ends
  subst pending
  unfold process
  simp only [not_true_eq_false, if_false, Config.windowUnit_eq fits.unit, Fault.ok_bind,
    holds.get_eq]
  refine Fault.Ends.bind ends ?_
  rintro ⟨⟨breaks', frontier', restartEnd', looks, interrupt⟩, state, ending⟩
    (⟨⟨high, front, final, rest, holds', placed', -⟩, running, ended⟩ |
      ⟨met, front, final, rest, holds', placed', -⟩ |
        ⟨late, elapsed, front, final, rest, holds', placed', advanced, -⟩)
  · -- The text has been scanned to its end.
    cases ended
    cases running
    obtain ⟨index, cut, holdsCut⟩ := holds'.truncateAfter_spec
    rw [← List.append_nil rest] at placed'
    simp only [cut, Fault.ok_bind]
    exact ⟨rfl, rfl, front, final, [], ⟨held, wellFormed, lawful, holdsCut, placed'.remove⟩,
      fun working => nomatch working⟩
  · cases met
    exact ⟨rfl, rfl, front, final, rest, ⟨held, wellFormed, lawful, holds', placed'⟩,
      fun working => nomatch working⟩
  · cases late
    exact ⟨rfl, rfl, front, final, rest, ⟨held, wellFormed, lawful, holds', placed'⟩,
      fun _ => ⟨elapsed, advanced⟩⟩

/-- A slice of work overflows where the sizes it forms first cannot be formed. -/
theorem process_eq_overflow (exceeds : ¬ FitsWork text highlighter.config reached.position)
    (pending : highlighter.needsProcessing = true) (deadline : Deadline) :
    highlighter.process text deadline = .error .overflow := by
  obtain ⟨held, -, -, holds, placed⟩ := laid
  have inText : reached.position ≤ text.size :=
    placed.position_le (List.mem_append_right behind List.mem_cons_self)
  have small := held.size_lt
  rcases highlighter with
    ⟨grammar, config, breaks, frontier, restartEnd, lastRestart, needsProcessing, dirty⟩
  simp only at holds pending exceeds
  subst pending
  unfold process
  simp only [not_true_eq_false, if_false]
  by_cases unit : 4 * config.spacing ≤ maxSize
  · have window : reached.position < text.size ∧ maxSize < reached.position + 4 * config.spacing := by
      by_contra fits
      exact exceeds ⟨unit, fun inside => not_lt.mp fun beyond => fits ⟨inside, beyond⟩⟩
    have stops : (Scanner.ofUnit grammar (max Config.minWindowUnit (4 * config.spacing))).run text
        (Pass.sink ⟨text, config.spacing, deadline⟩) text.size (ScanState.ofBreak reached)
        ⟨breaks, frontier, restartEnd, 0, none⟩ = .error .overflow :=
      Grammar.run_eq_overflow _ _ window.1 (by
        show maxSize < reached.position + max _ _
        omega)
    simp only [Config.windowUnit_eq unit, Fault.ok_bind, holds.get_eq, stops]
    rfl
  · rw [Config.windowUnit_eq_overflow unit]
    rfl

end Laid

end Highlighter

end Highlight
