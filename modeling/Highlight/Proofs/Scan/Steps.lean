/-
**A scan takes few steps.**

Matches of no bytes do not get a scan on, and where regions begin and end with them it could enter and
leave regions for ever. But it uses such a match once at each place, and over the next character
otherwise. So wherever it is, it has come further by the moves that it has made:

* `ScanState.progress`: twice the position, and one more if a match of no bytes has been used there;
* `Grammar.Course.length_le`: every move gets on in that sense, so that there are at most two for every
  byte and one more;
* `Grammar.Course.never_silent_twice`: no two moves in a row are without a token;
* `Scanner.run_steps`: **a scan ends for any sink, after so many steps at most**, if what its regexes
  match lies inside of what was searched.
-/

import Mathlib.Algebra.BigOperators.Group.List.Basic
import Highlight.Proofs.Grammar.Gaps
import Highlight.Proofs.Scan.Trace

namespace Highlight

/-- How far a scan has come. -/
def ScanState.progress (state : ScanState) : Nat :=
  2 * state.position + if state.spot.used then 1 else 0

namespace Grammar

variable {grammar : Grammar} {text : Text} {state final : ScanState} {moves : List Move}

/-- Every move gets a scan on, be it by using a match of no bytes. -/
theorem Stride.progress_lt {move : Move} (stride : grammar.Stride text state move) :
    state.progress < move.state.progress := by
  unfold ScanState.progress
  rcases stride.forward with further | ⟨same, unused, used⟩
  · split <;> split <;> omega
  · rw [unused, used, same]
    simp only [Bool.false_eq_true, if_false, if_true]
    omega

/-- A course makes no more moves than it gets on. -/
theorem Course.progress_le (course : Course (grammar.Stride text) state moves final) :
    state.progress + moves.length ≤ final.progress := by
  induction course with
  | nil => exact le_rfl
  | cons stride _ ih =>
    have := stride.progress_lt
    rw [List.length_cons]
    omega

/-- A course makes at most two moves for every byte, and one more. -/
theorem Course.length_le (course : Course (grammar.Stride text) state moves final) :
    moves.length ≤ 2 * (final.position - state.position) + 1 := by
  have bound := course.progress_le
  unfold ScanState.progress at bound
  split at bound <;> split at bound <;> omega

/-- A course never leads back. -/
theorem Course.forward (course : Course (grammar.Stride text) state moves final) :
    (state :: moves.map Move.state).IsChain fun before after => before.position ≤ after.position := by
  induction course with
  | nil => exact .singleton _
  | cons stride course ih => exact .cons_cons stride.le ih

/-- After a move without a token the next one has a token: a match of no bytes has been used there. -/
theorem Course.never_silent_twice (course : Course (grammar.Stride text) state moves final) :
    moves.IsChain fun first second => first.token = none → second.token ≠ none := by
  induction course with
  | nil => exact .nil
  | cons stride course ih =>
    cases course with
    | nil => exact .singleton _
    | cons strideToo course =>
      refine .cons_cons (fun silent silentToo => ?_) ih
      have stays := stride.silent silent
      have staysToo := strideToo.silent silentToo
      have used := (stride.forward.resolve_left stays.not_lt).2.2
      have unused := (strideToo.forward.resolve_left staysToo.not_lt).2.1
      cases used.symm.trans unused

end Grammar

namespace Scanner

variable {σ : Type} (scanner : Scanner) {text : Text} {state : ScanState}

/-- **A scan ends whatever its sink makes of the tokens**, unless the sink fails. It never goes back, uses
at most one match of no bytes between two tokens, and takes at most two steps for every byte that it
gets on, and one more. -/
theorem run_steps (wellFormed : scanner.grammar.WellFormed) (lawful : scanner.grammar.Lawful)
    (held : text.Held) (positive : 0 < scanner.unit) (good : state.Good scanner.grammar text)
    (limit : Nat)
    (fits : state.position < min limit text.size → state.position + scanner.unit ≤ maxSize)
    (sink : Sink σ) (collected : σ) :
    ∃ reports whole ending,
      scanner.run text ScanReport.sink limit state [] = .ok (reports, whole, ending) ∧
        Fault.Ends (fun fault => ScanReport.feed sink reports collected = .error fault)
          (fun (after, final, _) => ∃ steps flow,
            Scanned scanner text sink (min limit text.size) state collected steps
                ⟨after, final, flow⟩ ∧
              Grammar.Course (scanner.grammar.Stride text) state steps.flatten final ∧
              ((state :: steps.flatten.map Move.state).IsChain
                fun before after => before.position ≤ after.position) ∧
              (steps.flatten.IsChain fun first second =>
                first.token = none → second.token ≠ none) ∧
              steps.length ≤ 2 * (final.position - state.position) + 1)
          (scanner.run text sink limit state collected) := by
  have makes := Grammar.makes_stride wellFormed lawful.bounded held
  obtain ⟨reports, whole, done, ran, ends⟩ := run_traced makes held positive good fits sink collected
  refine ⟨reports, whole, done, ran, ends.mono ?_⟩
  rintro ⟨after, final, ending⟩ ⟨steps, flow, scanned, course, some, -⟩
  have course := course.mono fun _ _ both => both.1
  refine ⟨steps, flow, scanned, course, course.forward, course.never_silent_twice, ?_⟩
  have bound : steps.length ≤ steps.flatten.length := by
    rw [List.length_flatten, ← List.length_map List.length]
    refine List.length_le_sum_of_one_le _ fun length member => ?_
    obtain ⟨moves, listed, rfl⟩ := List.mem_map.mp member
    exact List.length_pos_iff.mpr (some moves listed)
  exact bound.trans course.length_le

end Scanner

namespace Grammar

/-- The grammar whose regions begin and end between any two characters, and may be nested. There is
a match between them, too. -/
def hollow : Grammar :=
  { gaps with
    name := "hollow"
    patterns := #[{ Pattern.blank 0 256 with children := [1, 2] },
      { Pattern.blank 1 256 with
        opening := some 0, closing := some 0, closingLast := true, children := [1, 2] },
      { Pattern.blank 2 256 with opening := some 0 }] }

theorem wellFormed_hollow : hollow.WellFormed := ⟨⟨_, rfl⟩, by decide⟩

theorem run_steps_hollow :
    hollow.WellFormed ∧ hollow.Lawful ∧ (Text.ofString "ab").Held ∧
      ScanState.initial.Good hollow (.ofString "ab") ∧
      ∃ reports final ending steps flow,
        (Scanner.ofUnit hollow 1).run (.ofString "ab") ScanReport.sink 2 .initial [] =
            .ok (reports, final, ending) ∧
          Scanner.Scanned (.ofUnit hollow 1) (.ofString "ab") ScanReport.sink 2 .initial [] steps
            ⟨reports, final, flow⟩ ∧
          final.position = 2 ∧ final.stack.depth = 3 ∧ steps.length ≤ 5 := by
  have good : ScanState.initial.Good hollow (.ofString "ab") :=
    ScanState.good_startingAt rfl (PatternStack.known_root hollow)
  have lawful : hollow.Lawful := lawful_of_regexes_eq rfl
  have held : (Text.ofString "ab").Held := ⟨Text.isUtf8_ofString _, by decide⟩
  obtain ⟨reports, final, ending, ran, ends⟩ :=
    (Scanner.ofUnit hollow 1).run_steps wellFormed_hollow lawful held (by decide) good 2
      (fun _ => by decide) ScanReport.sink []
  rw [ran] at ends
  obtain ⟨steps, flow, scanned, -, -, -, few⟩ := ends
  have found : ((Scanner.ofUnit hollow 1).run (.ofString "ab") ScanReport.sink 2 .initial []).map
      (fun outcome => (outcome.2.1.position, outcome.2.1.stack.depth)) = .ok (2, 3) := by
    decide +kernel
  rw [ran] at found
  obtain ⟨position, depth⟩ := Prod.mk.inj (Except.ok.inj found)
  have few : steps.length ≤ 2 * (final.position - ScanState.initial.position) + 1 := few
  rw [position] at few
  exact ⟨wellFormed_hollow, lawful, held, good, reports, final, ending, steps, flow, ran, scanned,
    position, depth, few⟩

end Grammar

end Highlight
