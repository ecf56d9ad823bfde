/-
**The range that is noted lies between characters of the text.**

Edits and slices of work note where styles may have changed, and edits take the range that was noted
along. Nothing empty is ever noted, but an edit can take out all that was:

* `Span.Between`: a range begins and ends between characters of a text;
* `Span.Noted`: a range that is noted does so, and it is not empty unless it is at the start of the text;
* `Span.noted_carry`, `Span.carry_emptied_iff`: **an edit keeps it so, and empties the range exactly if it
  deletes the text up to the end of the range**;
* `Highlighter.Laid.process_dirty`, `Highlighter.Laid.edit_dirty`: what slices of work and edits note.
-/

import Highlight.Proofs.Highlighter.Keeps
import Highlight.Proofs.Text.Carry

namespace Highlight

open BreakIndex (Entry)

variable {text edited : Text} {change : Change}

/-! ### Ranges -/

namespace Span

/-- A range begins and ends between characters of a text. -/
structure Between (text : Text) (span : Span) : Prop where
  ordered : span.start ≤ span.stop
  starts : text.isBoundary span.start = true
  stops : text.isBoundary span.stop = true

/-- A range that is noted is between characters of the text, and it is empty at most at its start. -/
structure Noted (text : Text) (span : Span) : Prop extends Between text span where
  emptied : span.isEmpty = true → span = ⟨0, 0⟩

variable {pending : Option Span} {span other : Span} {start stop : Nat}

theorem isEmpty_iff : span.isEmpty = true ↔ span.stop ≤ span.start := decide_eq_true_iff

theorem add_of_isEmpty (empty : span.isEmpty = true) : add pending span = pending := if_pos empty

/-- What is empty in spite of a range that has been added was there, and what was added is empty. -/
theorem isEmpty_of_mem_add (member : other ∈ add pending span) (empty : other.isEmpty = true) :
    span.isEmpty = true ∧ other ∈ pending := by
  cases added : span.isEmpty with
  | true =>
    rw [add_of_isEmpty added] at member
    exact ⟨rfl, member⟩
  | false =>
    have further : span.start < span.stop := not_le.mp (isEmpty_iff.not.mp (by rw [added]; decide))
    unfold add at member
    rw [if_neg (by rw [added]; decide)] at member
    rw [isEmpty_iff] at empty
    cases pending with
    | none =>
      cases member
      exact absurd further (not_lt.mpr empty)
    | some pending =>
      cases member
      change max pending.stop span.stop ≤ min pending.start span.start at empty
      omega

/-- A range between characters is added to another one. -/
theorem between_add (before : ∀ other ∈ pending, Between text other)
    (starts : text.isBoundary span.start = true) (stops : text.isBoundary span.stop = true) :
    ∀ other ∈ add pending span, Between text other := by
  unfold add
  split
  · exact before
  · rename_i further
    rw [isEmpty_iff, not_le] at further
    intro other member
    cases pending with
    | none =>
      cases member
      exact ⟨further.le, starts, stops⟩
    | some pending =>
      cases member
      have between := before pending rfl
      refine ⟨(min_le_right _ _).trans (further.le.trans (le_max_right _ _)), ?_, ?_⟩
      · rcases le_total pending.start span.start with first | first
        · exact (congrArg text.isBoundary (min_eq_left first)).trans between.starts
        · exact (congrArg text.isBoundary (min_eq_right first)).trans starts
      · rcases le_total pending.stop span.stop with last | last
        · exact (congrArg text.isBoundary (max_eq_right last)).trans stops
        · exact (congrArg text.isBoundary (max_eq_left last)).trans between.stops

/-- A range between characters is noted in addition to what is noted. -/
theorem noted_add (before : ∀ other ∈ pending, Noted text other)
    (starts : text.isBoundary span.start = true) (stops : text.isBoundary span.stop = true) :
    ∀ other ∈ add pending span, Noted text other := fun other member =>
  ⟨between_add (fun other member => (before other member).toBetween) starts stops other member,
    fun empty => (before other (isEmpty_of_mem_add member empty).2).emptied empty⟩

/-- What is noted is the empty range after another one has been added exactly if it was so before, and
the other one is empty. -/
theorem add_eq_emptied_iff :
    add pending span = some ⟨0, 0⟩ ↔ span.isEmpty = true ∧ pending = some ⟨0, 0⟩ := by
  constructor
  · intro same
    exact isEmpty_of_mem_add same rfl
  · rintro ⟨empty, same⟩
    rw [add_of_isEmpty empty, same]

/-! ### Edits -/

section Edits

variable (edits : Text.Edits text edited change)
include edits

theorem Between.carry (between : Between text span) : Between edited (span.carry change) where
  ordered := edits.monotoneOn_carry
    (between.ordered.trans (Text.le_size_of_isBoundary between.stops))
    (Text.le_size_of_isBoundary between.stops) between.ordered
  starts := edits.isBoundary_carry between.starts
  stops := edits.isBoundary_carry between.stops

/-- A deletion from the start of the text on takes the positions up to its end to the start. -/
theorem carry_eq_zero_iff (starts : change.start = 0) (ends : change.newEnd = 0) {position : Nat}
    (within : position ≤ text.size) : change.carry position = 0 ↔ position ≤ change.oldEnd := by
  rcases lt_or_ge position change.oldEnd with inFront | behind
  · have := edits.carry_le_start inFront
    omega
  · have := edits.carry_behind behind within
    omega

/-- What such a deletion empties is what ends in it. -/
theorem Noted.carry_isEmpty_iff (noted : Noted text span) (starts : change.start = 0)
    (ends : change.newEnd = 0) :
    (span.carry change).isEmpty = true ↔ span.stop ≤ change.oldEnd := by
  have within := Text.le_size_of_isBoundary noted.stops
  have last := carry_eq_zero_iff edits starts ends within
  rw [isEmpty_iff]
  show change.carry span.stop ≤ change.carry span.start ↔ _
  constructor
  · intro empty
    by_contra beyond
    rw [not_le] at beyond
    rcases lt_or_ge span.start change.oldEnd with inFront | behind
    · have := edits.carry_le_start inFront
      omega
    · rcases noted.ordered.lt_or_eq with further | same
      · have := edits.carry_lt_carry behind (noted.ordered.trans within) further
        omega
      · -- the range was empty before, so it is at the start of the text
        rw [noted.emptied (isEmpty_iff.mpr same.ge)] at beyond
        exact absurd beyond (Nat.not_lt_zero _)
  · intro inside
    rw [last.mpr inside]
    exact Nat.zero_le _

theorem Noted.carry_eq (noted : Noted text span) (starts : change.start = 0) (ends : change.newEnd = 0)
    (inside : span.stop ≤ change.oldEnd) : span.carry change = ⟨0, 0⟩ := by
  have within := Text.le_size_of_isBoundary noted.stops
  unfold carry
  rw [(carry_eq_zero_iff edits starts ends within).mpr inside,
    (carry_eq_zero_iff edits starts ends (noted.ordered.trans within)).mpr
      (noted.ordered.trans inside)]

variable (noted : ∀ span ∈ pending, Noted text span) (inFront : start ≤ change.start)
  (clear : start = 0 ∨ start < change.start)
include inFront clear

/-- An edit that begins behind where it is noted from, or at the start of the text, notes something
unless it deletes from the start on. -/
theorem mark_isEmpty_iff :
    isEmpty ⟨start, change.newEnd⟩ = true ↔ change.start = 0 ∧ change.newEnd = 0 := by
  have newEnd := edits.newEnd
  rw [isEmpty_iff]
  show change.newEnd ≤ start ↔ _
  omega

include noted

/-- What is noted after an edit is between characters of the new text. -/
theorem noted_carry (boundary : edited.isBoundary start = true) :
    ∀ other ∈ add (pending.map (carry change)) ⟨start, change.newEnd⟩, Noted edited other := by
  intro other member
  have between : ∀ other ∈ pending.map (carry change), Between edited other := by
    intro other moved
    obtain ⟨span, isPending, rfl⟩ := Option.mem_map.mp moved
    exact (noted span isPending).toBetween.carry edits
  refine ⟨between_add between boundary edits.back.right other member, fun empty => ?_⟩
  obtain ⟨mark, moved⟩ := isEmpty_of_mem_add member empty
  obtain ⟨starts, ends⟩ := (mark_isEmpty_iff edits inFront clear).mp mark
  obtain ⟨span, isPending, rfl⟩ := Option.mem_map.mp moved
  have was := noted span isPending
  exact was.carry_eq edits starts ends ((was.carry_isEmpty_iff edits starts ends).mp empty)

/-- An edit empties what is noted exactly if it deletes the text up to the end of that. -/
theorem carry_emptied_iff :
    add (pending.map (carry change)) ⟨start, change.newEnd⟩ = some ⟨0, 0⟩ ↔
      change.start = 0 ∧ change.newEnd = 0 ∧ ∃ span ∈ pending, span.stop ≤ change.oldEnd := by
  rw [add_eq_emptied_iff, mark_isEmpty_iff edits inFront clear, and_assoc]
  refine and_congr_right fun starts => and_congr_right fun ends => ?_
  rw [Option.map_eq_some_iff]
  refine exists_congr fun span => and_congr_right fun isPending => ?_
  have was := noted span isPending
  exact ⟨fun same => (was.carry_isEmpty_iff edits starts ends).mp (by rw [same]; rfl),
    was.carry_eq edits starts ends⟩

end Edits

end Span

/-! ### What is noted -/

/-- No scan leads back, whatever its sink does. -/
theorem Scanner.run_forward {σ : Type} {sink : Sink σ} {scanner : Scanner} {limit : Nat}
    {state final : ScanState} {collected after : σ} {ending : ScanEnd}
    (wellFormed : scanner.grammar.WellFormed) (lawful : scanner.grammar.Lawful) (held : text.Held)
    (positive : 0 < scanner.unit) (good : state.Good scanner.grammar text)
    (ran : scanner.run text sink limit state collected = .ok (after, final, ending)) :
    final.Good scanner.grammar text ∧ state.position ≤ final.position := by
  have makes := Grammar.makes_stride wellFormed lawful.bounded held
  let beyond (_ : σ) (other : ScanState) : Prop := state.position ≤ other.position
  have keeps : sink.Keeps scanner.grammar text
      (fun state move => scanner.grammar.Stride text state move ∧ move.Short (max maxSize 4))
      beyond beyond := by
    constructor
    · exact fun _ further isMade _ => further.trans isMade.1.le
    · intro _ _ _ _ _ flow _ further isMade _ _
      cases flow <;> exact further.trans isMade.1.le
  have ends : sink.Ends True _ (scanner.run text sink limit state collected) :=
    scanner.run_ends makes held keeps limit (fun _ => Or.inr trivial) positive good le_rfl
  rw [ran] at ends
  obtain ⟨goodFinal, ⟨further, -⟩ | ⟨further, -⟩⟩ := ends
  · exact ⟨goodFinal, further⟩
  · exact ⟨goodFinal, further⟩

namespace Highlighter.Laid

variable {highlighter after : Highlighter} {behind ahead : List Entry} {reached : Break}
  (laid : Laid text highlighter behind reached ahead)
include laid

/-- A slice of work notes what it has scanned, from the frontier on. -/
theorem process_dirty {deadline : Deadline} {scanned : Nat}
    (went : highlighter.process text deadline = .ok (scanned, after)) :
    after.dirty = Span.add highlighter.dirty ⟨reached.position, reached.position + scanned⟩ ∧
      text.isBoundary (reached.position + scanned) = true := by
  have good := laid.good
  cases pending : highlighter.needsProcessing with
  | false =>
    rw [process_of_idle pending] at went
    cases went
    exact ⟨(Span.add_of_isEmpty (Span.isEmpty_iff.mpr le_rfl)).symm, good.boundary⟩
  | true =>
    obtain ⟨held, wellFormed, lawful, holds, -⟩ := laid
    rcases highlighter with
      ⟨grammar, config, breaks, frontier, restartEnd, lastRestart, needsProcessing, dirty⟩
    simp only at wellFormed lawful holds good pending
    subst pending
    unfold process at went
    simp only [not_true_eq_false, if_false, Fault.bind_eq_ok] at went
    obtain ⟨unit, -, value, found, ⟨pass, state, ending⟩, ran, went⟩ := went
    cases holds.get_eq.symm.trans found
    obtain ⟨goodFinal, further⟩ :=
      Scanner.run_forward wellFormed lawful held (Scanner.unit_pos grammar unit) good ran
    have stop : reached.position + (state.position - (ScanState.ofBreak reached).position) =
        state.position := Nat.add_sub_cancel' further
    have outcome : scanned = state.position - (ScanState.ofBreak reached).position ∧
        after.dirty = Span.add dirty ⟨reached.position, state.position⟩ := by
      dsimp only at went
      split at went
      · obtain ⟨cut, -, went⟩ := Fault.bind_eq_ok.mp went
        cases went
        exact ⟨rfl, rfl⟩
      · cases went
        exact ⟨rfl, rfl⟩
      · cases went
        exact ⟨rfl, rfl⟩
    rw [outcome.1, stop]
    exact ⟨outcome.2, goodFinal.boundary⟩

/-- An edit notes the text from where processing is taken up again, which is before it or at the start. -/
theorem edit_dirty (edits : Text.Edits text edited change)
    (went : highlighter.edit change = .ok after) :
    ∃ start, after.dirty =
        Span.add (highlighter.dirty.map (Span.carry change)) ⟨start, change.newEnd⟩ ∧
      start ≤ change.start ∧ (start = 0 ∨ start < change.start) ∧
      edited.isBoundary start = true := by
  have small : ∀ entry ∈ behind ++ (highlighter.frontier, reached) :: ahead,
      entry.2.position ≤ maxSize := fun entry member =>
    (laid.placed.position_le member).trans laid.held.size_lt_maxSize.le
  obtain ⟨front, restart, value, gone, rest, split, made⟩ :=
    edited_of_edit laid.holds laid.placed.ordered laid.placed.starts small went
  have placed := laid.placed
  rw [split] at placed
  have inFront := made.value_le_start placed.starts
  refine ⟨value.position, made.dirty, inFront, ?_, ?_⟩
  · rcases made.clear with rfl | clear
    · cases Option.some_inj.mp placed.starts
      exact .inl rfl
    · exact .inr (by omega)
  · rw [← edits.front.isBoundary_eq inFront]
    exact (placed.good (restart, value) (List.mem_append_right _ List.mem_cons_self)).boundary

end Highlighter.Laid

end Highlight
