/-
**An edit keeps the breaks that do not see it, and no others.**

With `reach` one byte more than the regexes of the grammar see around them, an edit of the bytes
`[start, oldEnd)` leaves the breaks up to the last one that is `reach` before `start`, and takes along
those more than `reach` behind `oldEnd`:

* `Highlighter.InOrder`: the breaks of a highlighter are in order, and its frontier is one of them, as
  `Highlighter.Reachable.inOrder` says of every highlighter that operations have led to;
* `Highlighter.Surgery`: what an edit leaves of the breaks, and where the frontier is then;
* `Highlighter.InOrder.edit_surgery`: **an edit does just that**, wherever it begins to look for the
  break to restart from, unless a sum of positions overflows.
-/

import Highlight.Proofs.Highlighter.Reachable

namespace Highlight.Highlighter

open BreakIndex (Entry)

variable {text edited : Text} {highlighter : Highlighter} {change : Change}

/-- The breaks of a highlighter are at different positions of its text, in order from the one at its
start on, and the frontier is one of them. -/
structure InOrder (text : Text) (highlighter : Highlighter) : Prop where
  holds : highlighter.breaks.Holds highlighter.breaks.toList
  starts : highlighter.breaks.toList.head? = some (BreakIndex.first, Break.first)
  sorted : BreakIndex.Sorted highlighter.breaks.toList
  inText : ∀ entry ∈ highlighter.breaks.toList, entry.2.position ≤ text.size
  live : highlighter.breaks.contains highlighter.frontier = true

theorem Reachable.inOrder (reachable : Reachable text highlighter) : highlighter.InOrder text := by
  obtain ⟨behind, reached, ahead, spread⟩ := reachable.spread
  have ordered := spread.ordered
  exact ⟨spread.tracks.holds.toList_eq.symm ▸ spread.tracks.holds, ordered.starts, ordered.sorted,
    fun entry member => (ordered.inText entry member).2, ordered.live⟩

/-- A break has moved by a distance and is the same otherwise. -/
structure MovedBy (distance : Int) (old new : Entry) : Prop where
  id : new.1 = old.1
  kind : new.2.kind = old.2.kind
  stack : new.2.stack = old.2.stack
  position : (new.2.position : Int) = old.2.position + distance

/-- What an edit to the text `edited` leaves of the breaks of a highlighter, with the restart `value`
between those of `front` and those of `back`. -/
structure Surgery (highlighter : Highlighter) (change : Change) (edited : Text) (front : List Entry)
    (restart : BreakId) (value : Break) (back : List Entry) (after : Highlighter) : Prop where
  split : highlighter.breaks.toList = front ++ (restart, value) :: back
  isRestart : IsRestart (highlighter.grammar.maxExtend + 1) change.start front value back
  breaks : ∃ moved, after.breaks.toList = front ++ (restart, value) :: moved ∧
    List.Forall₂ (MovedBy change.delta)
      (back.filter fun entry =>
        change.oldEnd + (highlighter.grammar.maxExtend + 1) < entry.2.position) moved
  frontier : ∃ reached, highlighter.frontierPosition = .ok reached ∧
    after.frontier = if value.position ≤ reached then restart else highlighter.frontier
  inOrder : after.InOrder edited

/-! ### Breaks that move -/

/-- A break behind an edit moves by the difference of the lengths. -/
theorem movedBy_moveEntry (edits : Text.Edits text edited change) {entry : Entry}
    (behind : change.oldEnd ≤ entry.2.position) (inText : entry.2.position ≤ text.size) :
    MovedBy change.delta entry (BreakIndex.moveEntry change.delta entry) := by
  refine ⟨rfl, rfl, rfl, ?_⟩
  have sizes := edits.size_add
  have delta := edits.delta
  have small := edits.after_lt
  show ((shifted entry.2.position change.delta : Nat) : Int) = _
  unfold shifted maxSize
  omega

theorem forall₂_map_moveEntry (edits : Text.Edits text edited change) {entries : List Entry}
    (behind : ∀ entry ∈ entries, change.oldEnd ≤ entry.2.position)
    (inText : ∀ entry ∈ entries, entry.2.position ≤ text.size) :
    List.Forall₂ (MovedBy change.delta) entries
      (entries.map (BreakIndex.moveEntry change.delta)) := by
  rw [List.forall₂_map_right_iff, List.forall₂_same]
  exact fun entry member => movedBy_moveEntry edits (behind entry member) (inText entry member)

/-- The breaks up to one before an edit and those behind the edit stay in order. -/
theorem sorted_moved {front gone rest : List Entry} {restart : BreakId} {value : Break}
    (edits : Text.Edits text edited change)
    (sorted : BreakIndex.Sorted (front ++ (restart, value) :: (gone ++ rest)))
    (clear : value.position ≤ change.start)
    (beyond : ∀ entry ∈ rest, change.oldEnd < entry.2.position)
    (inText : ∀ entry ∈ rest, entry.2.position ≤ text.size) :
    BreakIndex.Sorted (front ++ (restart, value) :: rest.map (BreakIndex.moveEntry change.delta)) := by
  have before := sorted.before
  unfold BreakIndex.Sorted at sorted ⊢
  rw [List.append_cons, List.pairwise_append] at sorted ⊢
  have delta := edits.delta
  have newEnd := edits.newEnd
  have sizes := edits.size_add
  have moves : ∀ entry ∈ rest, ((BreakIndex.moveEntry change.delta entry).2.position : Int) =
      entry.2.position + change.delta := fun entry member =>
    (movedBy_moveEntry edits (beyond entry member).le (inText entry member)).position
  refine ⟨sorted.1, List.pairwise_map.mpr ?_, fun entry member other memberOther => ?_⟩
  · refine (List.pairwise_append.mp sorted.2.1).2.1.imp_of_mem fun member memberOther ordered => ?_
    have moved := moves _ member
    have movedOther := moves _ memberOther
    omega
  · obtain ⟨old, inRest, rfl⟩ := List.mem_map.mp memberOther
    have inFront : entry.2.position ≤ value.position := by
      rcases List.mem_append.mp member with old | here
      · exact (before entry old).le
      · rw [List.mem_singleton.mp here]
    have moved := moves old inRest
    have behind := beyond old inRest
    omega

/-! ### Edits -/

/-- No sum that an edit forms overflows if those of the sizes do not. -/
theorem InOrder.sums (inOrder : InOrder text highlighter) (edits : Text.Edits text edited change)
    {reached : Break} (inText : reached.position ≤ text.size)
    (held : text.Held)
    (fits : text.size + (highlighter.grammar.maxExtend + 1) ≤ maxSize) :
    highlighter.Sums change highlighter.breaks.toList reached := by
  have small := held.size_lt
  have smallAfter := edits.after_lt
  have within := Text.le_size_of_isBoundary edits.back.left
  have reachable := edits.carry_le_size inText
  refine ⟨by omega, fun entry member _ => ?_, ?_, fun entry member => ?_⟩
  · have inText := inOrder.inText entry member
    omega
  · unfold maxSize
    omega
  · have inText := inOrder.inText entry member
    unfold maxSize
    omega

/-- What is left of the breaks is in order. -/
theorem Edited.inOrder {after : Highlighter} {reached value : Break} {front gone rest : List Entry}
    {restart : BreakId}
    (made : highlighter.Edited change after reached front restart value rest)
    (inOrder : InOrder text highlighter) (edits : Text.Edits text edited change)
    (split : highlighter.breaks.toList = front ++ (restart, value) :: (gone ++ rest))
    (here : (highlighter.frontier, reached) ∈ highlighter.breaks.toList) : after.InOrder edited := by
  obtain ⟨-, starts, sorted, inText, -⟩ := inOrder
  rw [split] at starts sorted inText here
  obtain ⟨behind, ahead, place⟩ := List.mem_iff_append.mp here
  have listed := made.holds.toList_eq
  have clear := made.value_le_start starts
  have sizes := edits.size_add
  have newEnd := edits.newEnd
  have delta := edits.delta
  have within := Text.le_size_of_isBoundary edits.back.left
  have beyond : ∀ entry ∈ rest, change.oldEnd < entry.2.position := fun entry member => by
    have := made.behind entry member
    omega
  have inside : ∀ entry ∈ rest, entry.2.position ≤ text.size := fun entry member =>
    inText entry (by simp [member])
  refine ⟨listed ▸ made.holds, ?_, ?_, fun entry member => ?_, made.holds.mem_ids_iff.mp ?_⟩
  · rw [listed, ← starts]
    cases front <;> rfl
  · rw [listed]
    exact sorted_moved edits sorted clear beyond inside
  · rw [listed, List.append_cons, List.mem_append] at member
    rcases member with kept | moved
    · have before : entry.2.position ≤ value.position := by
        rcases List.mem_append.mp kept with inFront | atRestart
        · exact (sorted.before entry inFront).le
        · rw [List.mem_singleton.mp atRestart]
      omega
    · obtain ⟨old, inRest, rfl⟩ := List.mem_map.mp moved
      have moves := (movedBy_moveEntry edits (beyond old inRest).le (inside old inRest)).position
      have := inside old inRest
      omega
  · obtain ⟨before, final, later, same⟩ := made.exists_split sorted.ordered place.symm
    rw [List.append_cons, same]
    simp

/-- **What an edit of the text does to breaks that are in order**, and to the rest of the highlighter. -/
theorem InOrder.edit_ends (inOrder : InOrder text highlighter) (held : text.Held)
    (edits : Text.Edits text edited change) :
    Fault.Ends
      (fun fault => fault = .overflow ∧
        maxSize < text.size + (highlighter.grammar.maxExtend + 1))
      (fun after => ∃ front restart value back,
        Surgery highlighter change edited front restart value back after ∧
          ∃ reached rest, highlighter.frontierPosition = .ok reached.position ∧
            highlighter.Edited change after reached front restart value rest)
      (highlighter.edit change) := by
  obtain ⟨behind, reached, ahead, listed⟩ := inOrder.holds.exists_split_of_contains inOrder.live
  have here : (highlighter.frontier, reached) ∈ highlighter.breaks.toList := by simp [listed]
  have sums := inOrder.sums edits (inOrder.inText _ here) held
  have small : ∀ entry ∈ highlighter.breaks.toList, entry.2.position ≤ maxSize :=
    fun entry member => (inOrder.inText entry member).trans held.size_lt_maxSize.le
  have holds := inOrder.holds
  have ordered := inOrder.sorted.ordered
  have starts := inOrder.starts
  rw [listed] at holds ordered starts small sums
  have position : highlighter.frontierPosition = .ok reached.position := holds.position_eq
  refine ((Highlighter.edit_ends holds ordered starts small change).weaken
    fun fault overflows => ?_).mono ?_
  · obtain ⟨overflow, not⟩ := overflows
    exact ⟨overflow, not_le.mp fun fits => not (sums fits)⟩
  rintro after ⟨front, restart, value, gone, rest, split, isRestart, near, made⟩
  have whole := listed.trans split
  have kept : (gone ++ rest).filter (fun entry =>
      change.oldEnd + (highlighter.grammar.maxExtend + 1) < entry.2.position) = rest := by
    rw [List.filter_append, List.filter_eq_nil_iff.mpr fun entry member => by
      simpa using near entry member, List.filter_eq_self.mpr fun entry member => by
      simpa using made.behind entry member, List.nil_append]
  refine ⟨front, restart, value, gone ++ rest, ⟨whole, isRestart, ⟨_, made.holds.toList_eq, ?_⟩,
    ⟨reached.position, position, ?_⟩, made.inOrder inOrder edits whole here⟩,
    reached, rest, position, made⟩
  · rw [kept]
    refine forall₂_map_moveEntry edits (fun entry member => ?_) fun entry member =>
      inOrder.inText entry (by simp [whole, member])
    exact (Nat.le_add_right _ _).trans (made.behind entry member).le
  · rcases made.rewound with ⟨inFront, frontier, -⟩ | ⟨further, frontier, -⟩
    · rw [frontier, if_pos inFront]
    · rw [frontier, if_neg (not_le.mpr further)]

/-- The breaks that an edit takes along are behind it. -/
theorem Surgery.newEnd_le {after : Highlighter} {front back moved : List Entry} {restart : BreakId}
    {value : Break} (surgery : Surgery highlighter change edited front restart value back after)
    (edits : Text.Edits text edited change)
    (listed : after.breaks.toList = front ++ (restart, value) :: moved) :
    ∀ entry ∈ moved, change.newEnd ≤ entry.2.position := by
  obtain ⟨entries, breaks, movedBy⟩ := surgery.breaks
  obtain rfl : entries = moved :=
    List.tail_eq_of_cons_eq (List.append_cancel_left (breaks.symm.trans listed))
  intro entry member
  obtain ⟨⟨place, inNew⟩, rfl⟩ := List.get_of_mem member
  have inOld := inNew.trans_eq movedBy.length_eq.symm
  have moves := (movedBy.get inOld inNew).position
  have behind := of_decide_eq_true (List.mem_filter.mp (List.get_mem _ ⟨place, inOld⟩)).2
  have delta := edits.delta
  have sizes := edits.size_add
  omega

/-- **An edit of the text keeps the breaks up to the restart and those that it has no effect on**, and
takes the frontier back to the restart if it has to. The restart does not depend on the break that the
search for it begins at. It goes well unless a sum of positions overflows. -/
theorem InOrder.edit_surgery {start stop : Nat} {inserted : String}
    (inOrder : InOrder text highlighter) (held : text.Held)
    (replaced : text.replace start stop inserted = .ok (edited, change))
    (small : edited.size < 2 ^ 63) (hint : Option BreakId) :
    Fault.Ends
      (fun fault => fault = .overflow ∧
        maxSize < text.size + (highlighter.grammar.maxExtend + 1))
      (fun after => ∃ front restart value back,
        Surgery highlighter change edited front restart value back after)
      (edit { highlighter with lastRestart := hint } change) := by
  have hinted : InOrder text { highlighter with lastRestart := hint } :=
    ⟨inOrder.holds, inOrder.starts, inOrder.sorted, inOrder.inText, inOrder.live⟩
  refine (hinted.edit_ends held (Text.edits_of_replace held small replaced)).mono ?_
  rintro after ⟨front, restart, value, back, surgery, -⟩
  exact ⟨front, restart, value, back, surgery.split, surgery.isRestart, surgery.breaks,
    surgery.frontier, surgery.inOrder⟩

/-- An edit that is looked for from a slot without a break. -/
theorem edit_surgery_brackets : ∃ highlighter : Highlighter,
    highlighter.InOrder (.ofString "a(b)") ∧
      highlighter.breaks.toList.map Prod.fst = [0, 1, 2, 3, 4] ∧
      ∃ after, edit { highlighter with lastRestart := some 7 } ⟨3, 3, 1⟩ = .ok after ∧
        after.breaks.toList.map Prod.fst = [0, 1] ∧ ∃ front restart value back,
          Surgery highlighter ⟨3, 3, 1⟩ (.ofString "a(bc)") front restart value back after := by
  have run : (do
      let worked ←
        (ofSize Grammar.brackets ⟨1, 1024⟩ (Text.ofString "a(b)").size).process (.ofString "a(b)")
          .never
      let after ← edit { worked.2 with lastRestart := some 7 } ⟨3, 3, 1⟩
      return (decide worked.2.breaks.Numbered, worked.2.breaks.toList.map Prod.fst,
        after.breaks.toList.map Prod.fst)) =
        (.ok (true, [0, 1, 2, 3, 4], [0, 1]) : Except Fault _) := by decide +kernel
  obtain ⟨⟨scanned, worked⟩, processed, run⟩ := Fault.bind_eq_ok.mp run
  obtain ⟨after, edited, run⟩ := Fault.bind_eq_ok.mp run
  obtain ⟨numbered, lists⟩ := Prod.mk.inj (Except.ok.inj run)
  obtain ⟨before, left⟩ := Prod.mk.inj lists
  have reachable : Reachable (.ofString "a(b)") worked :=
    .process (.fresh Text.held_brackets Grammar.wellFormed_brackets Grammar.lawful_brackets
      (by decide)) processed (of_decide_eq_true numbered)
  have ends := InOrder.edit_surgery reachable.inOrder Text.held_brackets Text.replace_brackets
    (by decide) (some 7)
  rw [edited] at ends
  exact ⟨worked, reachable.inOrder, before, after, edited, left, ends⟩

end Highlight.Highlighter
