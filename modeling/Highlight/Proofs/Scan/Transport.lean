/-
**Walks through texts that agree.**

What the machine does at a spot depends on what can be seen from there. A walk is therefore one of
another text too, as long as the texts agree on all that is seen on the way:

* `Grammar.hop_moved`: a hop, where two texts look the same;
* `Grammar.Walk.before`: **a walk that stays clear of the end of what two texts share**;
* `Grammar.Walk.behind`: **a walk from a spot that is clear of the start of it**, moved along with the
  text.
-/

import Highlight.Proofs.Scan.Walk

namespace Highlight

/-! ### Styles do not depend on where positions are counted from -/

namespace StyledSpan

/-- A piece moved by some bytes. -/
def moved (piece : StyledSpan) (offset : Nat) : StyledSpan :=
  ⟨piece.start + offset, piece.stop + offset, piece.style⟩

theorem styleAt_moved (pieces : List StyledSpan) (style : StyleId) (position offset : Nat) :
    styleAt (pieces.map (·.moved offset)) style (offset + position) =
      styleAt pieces style position := by
  unfold styleAt
  rw [List.foldl_map]
  congr 1
  funext below piece
  have same : piece.start + offset ≤ offset + position ∧ offset + position < piece.stop + offset ↔
      piece.start ≤ position ∧ position < piece.stop := by omega
  exact if_congr same rfl rfl

theorem styles_moved (pieces : List StyledSpan) (start stop : Nat) (style : StyleId)
    (offset : Nat) :
    styles (pieces.map (·.moved offset)) (start + offset) (stop + offset) style =
      styles pieces start stop style := by
  unfold styles
  rw [Nat.add_sub_add_right, Nat.add_comm start, ← List.map_add_range', List.map_map]
  congr 1
  funext position
  exact styleAt_moved pieces style position offset

end StyledSpan

namespace Regex.Match

theorem captureSpans_moved (found : Match) (styles : List (Option StyleId)) (offset : Nat) :
    (found.moved offset).captureSpans styles =
      (found.captureSpans styles).map (·.moved offset) := by
  unfold captureSpans
  rw [List.map_filterMap]
  congr 1
  funext ⟨style, group⟩
  cases style with
  | none => rfl
  | some style =>
    simp only [span?_moved, bind, Option.bind]
    cases found.span? group with
    | none => rfl
    | some span =>
      obtain ⟨start, stop⟩ := span
      simp only [Option.map_some, moved, Nat.add_max_add_right, Nat.add_min_add_right,
        Nat.add_lt_add_iff_right]
      split <;> rfl

/-- The styles of a match do not depend on where positions are counted from. -/
theorem styles_moved (found : Match) (style : StyleId) (captures : List (Option StyleId))
    (offset : Nat) : (found.moved offset).styles style captures = found.styles style captures := by
  unfold Match.styles
  rw [captureSpans_moved]
  exact StyledSpan.styles_moved _ _ _ _ _

theorem styles_congr {found counterpart : Match} {offset other : Nat}
    (aligned : found.moved offset = counterpart.moved other) (style : StyleId)
    (captures : List (Option StyleId)) :
    found.styles style captures = counterpart.styles style captures := by
  rw [← styles_moved found style captures offset, aligned, styles_moved]

theorem bounds_of_aligned {found counterpart : Match} {offset other : Nat}
    (aligned : found.moved offset = counterpart.moved other) :
    found.start + offset = counterpart.start + other ∧
      found.stop + offset = counterpart.stop + other :=
  ⟨congrArg Match.start aligned, congrArg Match.stop aligned⟩

end Regex.Match

namespace Grammar

variable {grammar : Grammar} {first second : Text}

/-! ### Hops -/

/-- A region is entered in the same way where two texts look the same. -/
theorem entered?_congr {found counterpart : Regex.Match} {reach position place : Nat}
    (same : Text.SameAround reach first position second place)
    (near : found.Near first reach position)
    (aligned : found.moved place = counterpart.moved position) (stack : PatternStack)
    (pattern : Pattern) (id : PatternId) :
    entered? (.whole first) stack pattern id found =
      entered? (.whole second) stack pattern id counterpart := by
  have groups : (fun group => found.group? (Window.whole first).subject group) =
      fun group => counterpart.group? (Window.whole second).subject group := by
    funext group
    exact Regex.Match.group?_congr same near aligned group
  unfold entered?
  rw [groups]

/-- What has been found is used in the same way where two texts look the same. -/
theorem Uses.moved {stack after : PatternStack} {reach position place : Nat}
    {captures : List (Option StyleId)} {style : StyleId} {choice counterpart : Choice}
    (same : Text.SameAround reach first position second place)
    (near : choice.found.Near first reach position)
    (aligned : choice.moved place = counterpart.moved position)
    (uses : grammar.Uses (.whole first) stack choice captures style after) :
    grammar.Uses (.whole second) stack counterpart captures style after := by
  cases uses with
  | closing there styled =>
    cases counterpart with
    | child id other => cases aligned
    | closing other => exact .closing there styled
  | opening there enters styled =>
    cases counterpart with
    | closing other => cases aligned
    | child id other =>
      obtain ⟨rfl, found_eq⟩ := Choice.child.inj aligned
      exact .opening there ((entered?_congr same near found_eq stack _ _).symm.trans enters) styled
  | whole there stays styled =>
    cases counterpart with
    | closing other => cases aligned
    | child id other =>
      obtain ⟨rfl, found_eq⟩ := Choice.child.inj aligned
      exact .whole there ((entered?_congr same near found_eq stack _ _).symm.trans stays) styled

/-- The machine gets behind a match in the same way where two texts look the same. -/
theorem use_moved {spot next : Spot} {place : Nat} {styles : List StyleId}
    {choice counterpart : Choice}
    (same : Text.SameAround grammar.maxExtend first spot.position second place)
    (near : choice.found.Near first grammar.maxExtend spot.position)
    (aligned : choice.moved place = counterpart.moved spot.position)
    (here : grammar.use first spot choice = .ok (styles, next)) :
    ∃ stop, grammar.use second ⟨place, spot.stack, spot.used⟩ counterpart =
        .ok (styles, ⟨stop, next.stack, next.used⟩) ∧
      next.position + place = stop + spot.position := by
  have found_eq : choice.found.moved place = counterpart.found.moved spot.position := by
    rw [← Choice.found_moved, aligned, Choice.found_moved]
  obtain ⟨starts, stops⟩ := Regex.Match.bounds_of_aligned found_eq
  have empty : decide (choice.found.start = choice.found.stop) =
      decide (counterpart.found.start = counterpart.found.stop) := decide_eq_decide.mpr (by omega)
  obtain ⟨captures, style, stack, uses, rfl, rfl⟩ := use_eq_ok_iff.mp here
  refine ⟨counterpart.found.stop, use_eq_ok_iff.mpr
    ⟨captures, style, stack, uses.moved same near aligned, ?_, ?_⟩, stops⟩
  · exact Regex.Match.styles_congr found_eq style captures
  · rw [empty]

/-- A character is got over in the same way in two texts where it is equally long. -/
theorem pass_moved {spot next : Spot} {place : Nat} {styles : List StyleId}
    (nexts : first.next spot.position + place = second.next place + spot.position)
    (here : grammar.pass first spot = .ok (styles, next)) :
    ∃ stop, grammar.pass second ⟨place, spot.stack, spot.used⟩ =
        .ok (styles, ⟨stop, next.stack, next.used⟩) ∧
      next.position + place = stop + spot.position := by
  simp only [pass, Fault.bind_eq_ok] at here
  obtain ⟨style, styled, result⟩ := here
  cases result
  refine ⟨second.next place, ?_, nexts⟩
  simp only [pass, Fault.bind_eq_ok]
  refine ⟨style, styled, ?_⟩
  have width : second.next place - place = first.next spot.position - spot.position := by
    have := first.lt_next spot.position
    omega
  rw [width]
  rfl

section Lawful

variable (wellFormed : grammar.WellFormed) (isLocal : grammar.Local) (firstHeld : first.Held)
  (secondHeld : second.Held)
include wellFormed isLocal firstHeld secondHeld

/-- **The machine does the same where two texts look the same.** -/
theorem hop_moved {spot next : Spot} {place : Nat} {styles : List StyleId}
    (good : spot.Good grammar first) (inFirst : spot.position < first.size)
    (inSecond : place < second.size) (boundary : second.isBoundary place = true)
    (same : Text.SameAround grammar.maxExtend first spot.position second place)
    (nexts : first.next spot.position + place = second.next place + spot.position)
    (here : grammar.hop first spot = .ok (styles, next)) :
    ∃ stop, grammar.hop second ⟨place, spot.stack, spot.used⟩ =
        .ok (styles, ⟨stop, next.stack, next.used⟩) ∧
      next.position + place = stop + spot.position := by
  obtain ⟨pattern, known⟩ := good.known.top wellFormed
  have member := mem_of_pattern known
  have moved := choiceAt_moved isLocal firstHeld secondHeld member inFirst inSecond good.boundary boundary
    same spot.stack.top.pushed
  cases choice : grammar.choiceAt pattern spot.stack.top.pushed first spot.position with
  | none =>
    rw [choice] at moved
    rw [hop_of_none known choice] at here
    have passes : grammar.hop second ⟨place, spot.stack, spot.used⟩ = grammar.pass second _ :=
      hop_of_none known (Option.map_eq_none_iff.mp moved.symm)
    rw [passes]
    exact pass_moved nexts here
  | some choice' =>
    rw [choice] at moved
    obtain ⟨counterpart, there, aligned⟩ := Option.map_eq_some_iff.mp moved.symm
    have near := near_of_choiceAt isLocal firstHeld member inFirst good.boundary choice
    have found_eq := congrArg Choice.found aligned
    simp only [Choice.found_moved] at found_eq
    obtain ⟨starts, stops⟩ := Regex.Match.bounds_of_aligned found_eq
    by_cases again : choice'.found.start = choice'.found.stop ∧ spot.used = true
    · rw [hop_of_again known choice again] at here
      have passes : grammar.hop second ⟨place, spot.stack, spot.used⟩ = grammar.pass second _ :=
        hop_of_again known there ⟨by omega, again.2⟩
      rw [passes]
      exact pass_moved nexts here
    · rw [hop_of_fresh known choice again] at here
      have uses : grammar.hop second ⟨place, spot.stack, spot.used⟩ =
          grammar.use second _ counterpart :=
        hop_of_fresh known there fun both => again ⟨by have := both.1; omega, both.2⟩
      rw [uses]
      exact use_moved same near aligned.symm here

/-! ### Walks -/

/-- **A walk through the shared start of two texts is one of both**, if nothing behind what they share
can be seen on the way. -/
theorem Walk.before {stop : Nat} (same : Text.SameBefore first second stop) {spot final : Spot}
    {styles : List StyleId} (walk : grammar.Walk first spot styles final)
    (good : spot.Good grammar first) (near : final.position + grammar.maxExtend < stop) :
    grammar.Walk second spot styles final := by
  induction walk with
  | refl spot => exact .refl spot
  | @head spot next final styles rest inside here walk ih =>
    obtain ⟨found, middle, there, leads⟩ := hop_spec wellFormed isLocal firstHeld good inside
    cases here.symm.trans there
    have length := leads.length
    obtain ⟨-, further⟩ := walk.leads wellFormed isLocal firstHeld leads.good
    have before : spot.position < stop := by omega
    have inSecond := before.trans_le (Text.le_size_of_isBoundary same.right)
    have boundary : second.isBoundary spot.position = true :=
      (same.isBoundary_eq before.le).symm.trans good.boundary
    obtain ⟨reached, hop, aligned⟩ := hop_moved wellFormed isLocal firstHeld secondHeld good inside
      inSecond boundary (.of_sameBefore same (by omega)) (by rw [same.next_eq before]) here
    rw [show reached = next.position by omega] at hop
    exact .head inSecond hop (ih leads.good near)

/-- **Two texts that share a start have the same styles up to where something else can be seen.** -/
theorem Walk.getElem?_eq {stop : Nat} (same : Text.SameBefore first second stop)
    {spot final other : Spot} {styles others : List StyleId}
    (walk : grammar.Walk first spot styles final) (walkToo : grammar.Walk second spot others other)
    (good : spot.Good grammar first) (ended : first.size ≤ final.position)
    (endedToo : second.size ≤ other.position) {index : Nat}
    (near : spot.position + index + grammar.maxExtend < stop) : styles[index]? = others[index]? := by
  have inFirst := Text.le_size_of_isBoundary same.left
  have inSecond := Text.le_size_of_isBoundary same.right
  induction walk generalizing others index with
  | refl spot => omega
  | @head spot next final styles rest inside here walk ih =>
    cases walkToo with
    | refl => omega
    | @head _ nextToo _ othersHere restToo insideToo hereToo walkToo =>
      have boundary : second.isBoundary spot.position = true :=
        (same.isBoundary_eq (by omega)).symm.trans good.boundary
      obtain ⟨reached, hop, aligned⟩ := hop_moved wellFormed isLocal firstHeld secondHeld good inside
        insideToo boundary (.of_sameBefore same (by omega)) (by rw [same.next_eq (by omega)]) here
      obtain ⟨found, middle, there, leads⟩ := hop_spec wellFormed isLocal firstHeld good inside
      cases here.symm.trans there
      have length := leads.length
      rw [show reached = next.position by omega] at hop
      cases hop.symm.trans hereToo
      rw [List.getElem?_append, List.getElem?_append]
      split
      · rfl
      · exact ih walkToo leads.good ended (by omega)

/-- **A walk through the shared rest of two texts is one of both**, if nothing before what they share
can be seen on the way. -/
theorem Walk.behind {start place : Nat} (same : Text.SameFrom first start second place)
    {spot final : Spot} {styles : List StyleId} (walk : grammar.Walk first spot styles final)
    (good : spot.Good grammar first) (clear : start + grammar.maxExtend + 1 ≤ spot.position)
    {position : Nat} (aligned : spot.position + place = position + start) :
    ∃ stop, grammar.Walk second ⟨position, spot.stack, spot.used⟩ styles
        ⟨stop, final.stack, final.used⟩ ∧
      final.position + place = stop + start := by
  induction walk generalizing position with
  | refl spot => exact ⟨position, .refl _, aligned⟩
  | @head spot next final styles rest inside here walk ih =>
    obtain ⟨found, middle, there, leads⟩ := hop_spec wellFormed isLocal firstHeld good inside
    cases here.symm.trans there
    have length := leads.length
    have sizes := same.size_add
    obtain ⟨index, spot_eq⟩ := Nat.exists_eq_add_of_le (show start ≤ spot.position by omega)
    have position_eq : position = place + index := by omega
    have boundary : second.isBoundary position = true := by
      rw [position_eq, ← same.isBoundary_eq, ← spot_eq]
      exact good.boundary
    have around : Text.SameAround grammar.maxExtend first spot.position second position := by
      rw [spot_eq, position_eq]
      exact .of_sameFrom same (by omega)
    have nexts := same.next_eq (show start + index < first.size by omega)
    rw [← spot_eq, ← position_eq] at nexts
    obtain ⟨reached, hop, moved⟩ := hop_moved wellFormed isLocal firstHeld secondHeld good inside
      (by omega) boundary around (by omega) here
    obtain ⟨stop, rest, ended⟩ := ih leads.good (by omega)
      (show next.position + place = reached + start by omega)
    exact ⟨stop, .head (by show position < second.size; omega) hop rest, ended⟩

end Lawful

end Grammar

end Highlight
