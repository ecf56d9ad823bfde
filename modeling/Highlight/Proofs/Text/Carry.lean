/-
**Positions are carried along with the text.**

Whoever keeps positions of a text carries them through every change of it. What that does to them is
said of one replacement and of any number of them:

* `Text.CarriedBy`: a map of positions keeps their order, leads into the new text, takes boundaries
  to boundaries and finds the bytes that were kept;
* `Text.CarriedBy.trans`: two such maps are one, for the bytes that both of them keep;
* `Text.Edits.carriedBy`: a change is such a map, for the bytes that it spares;
* `Text.replace_carries`: **a replacement between characters carries all positions, and so do
  replacements one after the other**, for the bytes that none of them replaces.
-/

import Highlight.Proofs.Fault
import Highlight.Proofs.Text.Replace
import Mathlib.Data.Set.Function
import Mathlib.Order.Interval.Set.Basic

namespace Highlight

/-! ### Changes -/

namespace Change

/-- The byte at a position is not one of those that a change replaces. -/
def Spares (change : Change) (position : Nat) : Prop :=
  position < change.start ∨ change.oldEnd ≤ position

/-- A position inside of what a change replaces goes to its start. -/
theorem carry_inside {change : Change} {position : Nat} (behind : change.start < position)
    (inFront : position < change.oldEnd) : change.carry position = change.start := by
  unfold carry
  rw [if_neg (not_le.mpr inFront), if_pos behind]

/-- Where a position of the first text is after several changes. -/
def carryAll (changes : List Change) (position : Nat) : Nat :=
  changes.foldl (fun position change => change.carry position) position

/-- Each change of a list spares a byte, which is at `position` before them. -/
def AllSpare : List Change → Nat → Prop
  | [], _ => True
  | change :: rest, position => change.Spares position ∧ AllSpare rest (change.carry position)

end Change

namespace Text

/-! ### Maps that follow a text -/

/-- A map of positions follows a text that becomes another one: it keeps their order, it leads into the
new text and from boundaries to boundaries, and a byte that is `kept` is found where its position is
carried to. -/
structure CarriedBy (before after : Text) (carry : Nat → Nat) (kept : Nat → Prop) : Prop where
  monotone : MonotoneOn carry (Set.Iic before.size)
  inside : Set.MapsTo carry (Set.Iic before.size) (Set.Iic after.size)
  isBoundary : ∀ position, before.isBoundary position = true →
    after.isBoundary (carry position) = true
  byte?_eq : ∀ position < before.size, kept position →
    after.byte? (carry position) = before.byte? position

namespace CarriedBy

theorem refl (text : Text) (kept : Nat → Prop) : text.CarriedBy text id kept where
  monotone := monotone_id.monotoneOn _
  inside := Set.mapsTo_id _
  isBoundary _ boundary := boundary
  byte?_eq _ _ _ := rfl

/-- Two maps that follow a text one after the other follow it together. -/
theorem trans {first second third : Text} {carry further : Nat → Nat} {kept keptAfter : Nat → Prop}
    (carried : first.CarriedBy second carry kept) (onward : second.CarriedBy third further keptAfter) :
    first.CarriedBy third (fun position => further (carry position))
      (fun position => kept position ∧ keptAfter (carry position)) where
  monotone := onward.monotone.comp carried.monotone carried.inside
  inside := onward.inside.comp carried.inside
  isBoundary position boundary := onward.isBoundary _ (carried.isBoundary position boundary)
  byte?_eq position within keeps := by
    have same := carried.byte?_eq position within keeps.1
    have withinToo : carry position < second.size :=
      byte?_isSome.mp (same ▸ byte?_isSome.mpr within)
    exact (onward.byte?_eq _ withinToo keeps.2).trans same

end CarriedBy

/-! ### One change -/

namespace Edits

variable {before after : Text} {change : Change} {position : Nat}

/-- What is not behind the edit is not carried behind its start. -/
theorem carry_le_start (_edits : Edits before after change) (inFront : position < change.oldEnd) :
    change.carry position ≤ change.start := by
  unfold Change.carry
  rw [if_neg (not_le.mpr inFront)]
  split <;> omega

/-- What is behind the edit is not carried before its start. -/
theorem start_le_carry (edits : Edits before after change) (behind : change.oldEnd ≤ position)
    (within : position ≤ before.size) : change.start ≤ change.carry position := by
  have moved := edits.carry_behind behind within
  have newEnd := edits.newEnd
  omega

theorem monotoneOn_carry (edits : Edits before after change) :
    MonotoneOn change.carry (Set.Iic before.size) := by
  intro position first other second ordered
  rw [Set.mem_Iic] at first second
  rcases lt_or_ge other change.oldEnd with inFront | behind
  · unfold Change.carry
    rw [if_neg (ordered.trans_lt inFront).not_ge, if_neg inFront.not_ge]
    split <;> split <;> omega
  · rcases lt_or_ge position change.oldEnd with below | beyond
    · exact (edits.carry_le_start below).trans (edits.start_le_carry behind second)
    · rcases ordered.lt_or_eq with further | rfl
      · exact (edits.carry_lt_carry beyond first further).le
      · exact le_rfl

/-- What becomes of a position behind an edit, counted from the end of the edit. -/
theorem exists_behind (edits : Edits before after change) (behind : change.oldEnd ≤ position)
    (within : position ≤ before.size) :
    ∃ index, position = change.oldEnd + index ∧ change.carry position = change.newEnd + index := by
  have moved := edits.carry_behind behind within
  exact ⟨position - change.oldEnd, by omega, by omega⟩

/-- A boundary is carried to one. -/
theorem isBoundary_carry (edits : Edits before after change)
    (boundary : before.isBoundary position = true) :
    after.isBoundary (change.carry position) = true := by
  rcases lt_or_ge position change.oldEnd with inFront | behind
  · rcases le_or_gt position change.start with notBehind | within
    · rwa [edits.carry_before notBehind inFront, ← edits.front.isBoundary_eq notBehind]
    · rw [Change.carry_inside within inFront]
      exact edits.front.right
  · obtain ⟨index, rfl, carried⟩ := edits.exists_behind behind (le_size_of_isBoundary boundary)
    rwa [carried, ← edits.back.isBoundary_eq]

/-- A byte that the edit spares is found where its position is carried to. -/
theorem byte?_carry (edits : Edits before after change) (within : position < before.size)
    (spared : change.Spares position) :
    after.byte? (change.carry position) = before.byte? position := by
  rcases lt_or_ge position change.oldEnd with inFront | behind
  · have notBehind : position < change.start := spared.resolve_right (not_le.mpr inFront)
    rw [edits.carry_before notBehind.le inFront, edits.front.bytes position notBehind]
  · obtain ⟨index, rfl, carried⟩ := edits.exists_behind behind within.le
    rw [carried, edits.back.bytes index]

/-- A change carries the positions of the text along. -/
theorem carriedBy (edits : Edits before after change) :
    before.CarriedBy after change.carry change.Spares where
  monotone := edits.monotoneOn_carry
  inside _ within := edits.carry_le_size within
  isBoundary _ := edits.isBoundary_carry
  byte?_eq _ := edits.byte?_carry

end Edits

/-! ### Several replacements -/

/-- A string for the bytes `[start, stop)` of a text. -/
structure Replacement where
  start : Nat
  stop : Nat
  inserted : String

/-- The text with the string of a replacement in its place. -/
def Replacement.outcome (replacement : Replacement) (text : Text) : Text :=
  text.splice replacement.start replacement.stop (ofString replacement.inserted)

/-- A replacement begins and ends between characters of a text, and its outcome can be held. -/
structure Replacement.Fits (replacement : Replacement) (text : Text) : Prop where
  isSlice : text.isSlice replacement.start replacement.stop = true
  small : (replacement.outcome text).size < 2 ^ 63

/-- Each replacement of a list fits the text that those before it lead to. -/
def AllFit : Text → List Replacement → Prop
  | _, [] => True
  | text, replacement :: rest =>
    replacement.Fits text ∧ AllFit (replacement.outcome text) rest

/-- Replacements one after the other, with the change that each of them amounts to. -/
def replaceAll (text : Text) : List Replacement → Except Fault (Text × List Change)
  | [] => return (text, [])
  | replacement :: rest => do
    let (after, change) ← text.replace replacement.start replacement.stop replacement.inserted
    let (last, changes) ← after.replaceAll rest
    return (last, change :: changes)

/-- A replacement that fits goes well and amounts to an edit of its own range. -/
theorem Replacement.Fits.exists_replace {text : Text} {replacement : Replacement}
    (fits : replacement.Fits text) (held : text.Held) :
    ∃ change, text.replace replacement.start replacement.stop replacement.inserted =
        .ok (replacement.outcome text, change) ∧
      change.start = replacement.start ∧ change.oldEnd = replacement.stop ∧
      Edits text (replacement.outcome text) change ∧ (replacement.outcome text).Held := by
  obtain ⟨change, replaced⟩ := exists_replace_of_isSlice held fits.isSlice fits.small
  obtain ⟨-, -, -, -, lengths⟩ := replace_eq_ok replaced
  obtain ⟨start, stop⟩ := Change.range_of_ofLengths lengths
  exact ⟨change, replaced, start, stop, edits_of_replace held fits.small replaced,
    held_of_replace held fits.small replaced⟩

/-- Replacements that fit go well, and their changes carry the positions of the text along. -/
theorem exists_replaceAll {text : Text} (held : text.Held) (replacements : List Replacement)
    (fit : text.AllFit replacements) :
    ∃ after changes, text.replaceAll replacements = .ok (after, changes) ∧
      text.CarriedBy after (Change.carryAll changes) (Change.AllSpare changes) := by
  induction replacements generalizing text with
  | nil => exact ⟨text, [], rfl, CarriedBy.refl text _⟩
  | cons replacement rest ih =>
    obtain ⟨change, replaced, -, -, edits, heldAfter⟩ := fit.1.exists_replace held
    obtain ⟨after, changes, went, onward⟩ := ih heldAfter fit.2
    refine ⟨after, change :: changes, ?_, edits.carriedBy.trans onward⟩
    rw [replaceAll, replaced, Fault.ok_bind]
    simp only
    rw [went]
    rfl

/-- **A replacement between characters goes well and carries the positions of the text along.** Their
order is kept, they lead into the new text, boundaries are carried to boundaries, every byte outside
of the range is found where its position is carried to, and what is inside of the range goes to its
start. Replacements one after the other carry positions as well, for the bytes that none of them
replaces. -/
theorem replace_carries {text : Text} (held : text.Held) :
    (∀ replacement : Replacement, replacement.Fits text →
      ∃ change, text.replace replacement.start replacement.stop replacement.inserted =
          .ok (replacement.outcome text, change) ∧
        text.CarriedBy (replacement.outcome text) change.carry
          (fun position => position < replacement.start ∨ replacement.stop ≤ position) ∧
        ∀ position, replacement.start < position → position < replacement.stop →
          change.carry position = replacement.start) ∧
    ∀ replacements : List Replacement, text.AllFit replacements →
      ∃ after changes, text.replaceAll replacements = .ok (after, changes) ∧
        text.CarriedBy after (Change.carryAll changes) (Change.AllSpare changes) := by
  refine ⟨fun replacement fits => ?_, fun replacements => exists_replaceAll held replacements⟩
  obtain ⟨change, replaced, start, stop, edits, -⟩ := fits.exists_replace held
  rw [← start, ← stop] at replaced ⊢
  exact ⟨change, replaced, edits.carriedBy, fun position => Change.carry_inside⟩

/-- A bracket and what is in it are taken out, and then a letter is put before all. -/
theorem replace_carries_letters :
    (ofString "a(b)").Held ∧
      (∃ change, (ofString "a(b)").replace 1 3 "" = .ok (ofString "a)", change) ∧
        change.carry 2 = 1) ∧
      ∃ after changes,
        (ofString "a(b)").replaceAll [⟨1, 3, ""⟩, ⟨0, 0, "x"⟩] = .ok (after, changes) ∧
        MonotoneOn (Change.carryAll changes) (Set.Iic 4) := by
  have held : (ofString "a(b)").Held := ⟨isUtf8_ofString _, by decide⟩
  have taken : Replacement.Fits ⟨1, 3, ""⟩ (ofString "a(b)") := ⟨by decide, by decide⟩
  have put : Replacement.Fits ⟨0, 0, "x"⟩ (ofString "a)") := ⟨by decide, by decide⟩
  obtain ⟨single, several⟩ := replace_carries held
  obtain ⟨change, replaced, -, within⟩ := single ⟨1, 3, ""⟩ taken
  obtain ⟨after, changes, went, carried⟩ :=
    several [⟨1, 3, ""⟩, ⟨0, 0, "x"⟩] ⟨taken, put, trivial⟩
  exact ⟨held, ⟨change, replaced, within 2 (by decide) (by decide)⟩, after, changes, went,
    carried.monotone⟩

end Text

end Highlight
