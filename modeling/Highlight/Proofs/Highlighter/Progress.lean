/-
**Every slice of work makes progress.**

However little time a slice of work has, it leaves nothing to process or a frontier that is further on
than before. So the number of slices that a text takes is bounded, even if the time of each is over from the
start:

* `Highlighter.Reachable.process_iff`: a slice of work goes well and makes progress just where the sizes it
  forms first are such;
* `Highlighter.Reachable.progresses`: **and as many slices as there are bytes behind the frontier, and one
  more, leave nothing to process**.
-/

import Highlight.Proofs.Highlighter.FirstPass
import Highlight.Proofs.Highlighter.Laid
import Highlight.Proofs.Highlighter.Reachable

namespace Highlight.Highlighter

open BreakIndex (Entry)

variable {text : Text} {highlighter after : Highlighter} {behind ahead : List Entry}
  {reached : Break}

/-- Nothing is left to process, or the frontier is behind a position. -/
def Advanced (position : Nat) (highlighter : Highlighter) : Prop :=
  highlighter.needsProcessing = false ∨
    ∃ further, highlighter.frontierPosition = .ok further ∧ position < further

theorem Laid.process_advances (laid : Laid text highlighter behind reached ahead)
    (spaced : 1 ≤ highlighter.config.spacing)
    (fits : FitsWork text highlighter.config reached.position)
    (pending : highlighter.needsProcessing = true) (deadline : Deadline)
    (roomy : highlighter.RoomyFor text deadline) :
    ∃ scanned after, highlighter.process text deadline = .ok (scanned, after) ∧
      after.config = highlighter.config ∧
      ∃ front final rest, Laid text after front final rest ∧
        (after.needsProcessing = true → reached.position < final.position) := by
  have ends := laid.process_ends fits pending deadline roomy
  obtain ⟨⟨scanned, after⟩, went, -, same, front, final, rest, laidAfter, advanced⟩ :=
    ends.exists_ok fun fault stalls => by
      have := stalls.1
      omega
  exact ⟨scanned, after, went, same, front, final, rest, laidAfter,
    fun working => (advanced working).2⟩

/-- **Slices of work come to an end**: each leaves fewer bytes behind the frontier. -/
theorem Laid.processAll_ends (laid : Laid text highlighter behind reached ahead)
    (spaced : 1 ≤ highlighter.config.spacing) (short : text.size < BreakIndex.idRange)
    {schedule : List Deadline}
    (enough : highlighter.needsProcessing = true → text.size - reached.position < schedule.length) :
    Fault.Ends
      (fun fault => fault = .overflow ∧ maxSize < text.size + 4 * highlighter.config.spacing)
      (fun after => after.needsProcessing = false)
      (processAll text schedule highlighter) := by
  induction schedule generalizing highlighter behind reached ahead with
  | nil =>
    cases pending : highlighter.needsProcessing with
    | false => exact pending
    | true => cases enough pending
  | cons deadline rest ih =>
    rw [processAll]
    cases pending : highlighter.needsProcessing with
    | false =>
      rw [process_of_idle pending]
      exact ih laid spaced fun working => nomatch pending.symm.trans working
    | true =>
      have inText : reached.position ≤ text.size :=
        laid.placed.position_le (List.mem_append_right behind List.mem_cons_self)
      by_cases fits : FitsWork text highlighter.config reached.position
      · obtain ⟨scanned, after, went, same, front, final, others, laidAfter, advanced⟩ :=
          laid.process_advances spaced fits pending deadline (Or.inl ⟨spaced, short⟩)
        have inTextToo : final.position ≤ text.size :=
          laidAfter.placed.position_le (List.mem_append_right front List.mem_cons_self)
        rw [went, Fault.ok_bind, ← same]
        refine ih laidAfter (same ▸ spaced) fun working => ?_
        have further := advanced working
        have left := enough pending
        rw [List.length_cons] at left
        omega
      · rw [laid.process_eq_overflow fits pending]
        refine ⟨rfl, not_le.mp fun small => fits ⟨by omega, fun inside => by omega⟩⟩

/-- A slice of work goes well and makes progress just where the sizes that it forms first are such. -/
theorem Laid.process_iff (laid : Laid text highlighter behind reached ahead)
    (spaced : 1 ≤ highlighter.config.spacing) (short : text.size < BreakIndex.idRange)
    (pending : highlighter.needsProcessing = true) (deadline : Deadline) :
    (∃ scanned after, highlighter.process text deadline = .ok (scanned, after) ∧
      Advanced reached.position after) ↔ FitsWork text highlighter.config reached.position := by
  constructor
  · rintro ⟨scanned, after, went, -⟩
    by_contra exceeds
    rw [laid.process_eq_overflow exceeds pending] at went
    cases went
  · intro fits
    obtain ⟨scanned, after, went, -, front, final, rest, laidAfter, advanced⟩ :=
      laid.process_advances spaced fits pending deadline (Or.inl ⟨spaced, short⟩)
    refine ⟨scanned, after, went, ?_⟩
    cases working : after.needsProcessing with
    | false => exact Or.inl working
    | true => exact Or.inr ⟨final.position, laidAfter.holds.position_eq, advanced working⟩

/-- **Every slice of work makes progress, so a bounded number of them leaves nothing to process**, if
there are numbers for breaks at all positions. It fails only where a size of the settings cannot be
multiplied by four or added to a position. -/
theorem Reachable.progresses (reachable : Reachable text highlighter)
    (pending : highlighter.needsProcessing = true) (short : text.size < 2 ^ 32) :
    ∃ reached, highlighter.frontierPosition = .ok reached ∧
      (∀ deadline : Deadline,
        (∃ scanned after, highlighter.process text deadline = .ok (scanned, after) ∧
          Advanced reached after) ↔ FitsWork text highlighter.config reached) ∧
      ∀ schedule : List Deadline, text.size - reached + 1 ≤ schedule.length →
        Fault.Ends
          (fun fault => fault = .overflow ∧
            maxSize < text.size + 4 * highlighter.config.spacing)
          (fun after => after.needsProcessing = false)
          (processAll text schedule highlighter) := by
  obtain ⟨behind, reached, ahead, spread⟩ := reachable.spread
  have laid := spread.laid
  exact ⟨reached.position, laid.holds.position_eq, laid.process_iff spread.spaced short pending,
    fun schedule enough => laid.processAll_ends spread.spaced short fun _ => enough⟩

/-- Five slices of no time at all are enough for four bytes. -/
theorem progresses_brackets :
    Reachable (.ofString "a(b)") (ofSize Grammar.brackets ⟨1, 1024⟩ (Text.ofString "a(b)").size) ∧
      (ofSize Grammar.brackets ⟨1, 1024⟩ (Text.ofString "a(b)").size).needsProcessing = true ∧
      (Text.ofString "a(b)").size < 2 ^ 32 ∧
      ∃ after, processAll (.ofString "a(b)") (List.replicate 5 .expired)
          (ofSize Grammar.brackets ⟨1, 1024⟩ (Text.ofString "a(b)").size) = .ok after ∧
        after.needsProcessing = false := by
  have reachable : Reachable (.ofString "a(b)")
      (ofSize Grammar.brackets ⟨1, 1024⟩ (Text.ofString "a(b)").size) :=
    .fresh Text.held_brackets Grammar.wellFormed_brackets Grammar.lawful_brackets (by decide)
  obtain ⟨reached, here, -, ends⟩ := Reachable.progresses reachable (by decide) (by decide)
  have atStart : reached = 0 := (Except.ok.inj here).symm
  subst atStart
  have small : ¬ maxSize < (Text.ofString "a(b)").size + 4 * 1 := by decide
  exact ⟨reachable, by decide, by decide,
    (ends (List.replicate 5 .expired) (by decide)).exists_ok fun fault fails => small fails.2⟩

end Highlight.Highlighter
