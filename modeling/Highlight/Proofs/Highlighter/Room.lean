/-
**How many breaks a pass stores.**

Spaced breaks are at different positions, so that there are few of them in a text. Where breaks are not
spaced, there may be several at one position, and what bounds them is the deadline: the clock is looked at
after each. Without a deadline a pass that goes on to store breaks at one position does not end; if it does
end, then it has stored no more than three for each byte:

* `Deadline.stores`: how many breaks may yet be stored;
* `Pass.Affords`: there are slots for so many breaks;
* `Pass.Affords.checkpoint`: a checkpoint stores one of them at most;
* `Pass.Affords.sink`: **a token stores no more than three for each of its bytes**, or one for each look at
  the clock.
-/

import Highlight.Proofs.Highlighter.Checkpoint

namespace Highlight

/-- How many breaks a pass may yet store that has looked at the clock `looks` times: one at each look that
finds the time not over, and one more. Without a deadline it is a number that is given. -/
def Deadline.stores (deadline : Deadline) (most looks : Nat) : Nat :=
  match deadline with
  | .never => most
  | .after _ => deadline.left looks + 1

theorem Deadline.stores_pos (deadline : Deadline) (most looks : Nat) :
    0 < deadline.stores (most + 1) looks := by
  cases deadline <;> exact Nat.succ_pos _

theorem Deadline.stores_mono {deadline : Deadline} {fewer more : Nat}
    (le : deadline = .never → fewer ≤ more) (looks : Nat) :
    deadline.stores fewer looks ≤ deadline.stores more looks := by
  cases deadline with
  | never => exact le rfl
  | after allowed => exact le_rfl

/-- A look that finds the time not over is one of those that are left. -/
theorem Deadline.left_succ {deadline : Deadline} {looks : Nat} (early : deadline.isOver looks = false)
    (limited : deadline ≠ .never) : deadline.left (looks + 1) + 1 = deadline.left looks := by
  cases deadline with
  | never => exact absurd rfl limited
  | after allowed =>
    have inTime : looks < allowed := not_le.mp (of_decide_eq_false early)
    show allowed - (looks + 1) + 1 = allowed - looks
    omega

/-- It leaves one break fewer to store. -/
theorem Deadline.stores_succ {deadline : Deadline} {looks : Nat} (early : deadline.isOver looks = false)
    (most : Nat) : deadline.stores most (looks + 1) + 1 = deadline.stores (most + 1) looks := by
  cases deadline with
  | never => rfl
  | after allowed =>
    exact congrArg Nat.succ (Deadline.left_succ early fun never => Deadline.noConfusion never)

namespace Pass

variable {plan : PassPlan} {pass after : Pass} {value : Break} {flow : Flow} {slots most fewer : Nat}

/-- A pass may store all its breaks in so many slots, `most` of them if it has no deadline. -/
def Affords (plan : PassPlan) (slots most : Nat) (pass : Pass) : Prop :=
  pass.breaks.nodes.size + plan.deadline.stores most pass.looks ≤ slots

theorem Affords.mono (affords : Affords plan slots most pass)
    (le : plan.deadline = .never → fewer ≤ most) : Affords plan slots fewer pass :=
  (Nat.add_le_add_left (Deadline.stores_mono le pass.looks) _).trans affords

theorem Affords.size_le (affords : Affords plan slots most pass) : pass.breaks.nodes.size ≤ slots :=
  (Nat.le_add_right _ _).trans affords

/-- What a pass has come to that could store its breaks in so many slots, `most` more of them if it goes on
without a deadline. -/
def Spends (plan : PassPlan) (slots most : Nat) : Pass × Flow → Prop
  | (pass, .proceed) => Affords plan slots most pass
  | (pass, .halt) => pass.breaks.nodes.size ≤ slots

/-- A checkpoint stores a single break at most. -/
theorem Affords.checkpoint (affords : Affords plan slots (most + 1) pass)
    (went : Pass.checkpoint plan pass value = .ok (after, flow)) :
    Spends plan slots most (after, flow) := by
  rcases breaks_of_checkpoint went with ⟨rfl, -⟩ | ⟨result, stored, looked⟩
  · cases flow with
    | halt => exact affords.size_le
    | proceed => exact affords.mono fun _ => Nat.le_succ most
  · have oneMore := (BreakIndex.grows_of_setBreak stored).size_le
    unfold Affords at affords
    cases flow with
    | halt =>
      have some := plan.deadline.stores_pos most pass.looks
      show after.breaks.nodes.size ≤ slots
      omega
    | proceed =>
      obtain ⟨early, looks⟩ := looked rfl
      have left := Deadline.stores_succ early most
      show after.breaks.nodes.size + plan.deadline.stores most after.looks ≤ slots
      rw [looks]
      omega

/-- The checkpoints inside of unmatched text store no more breaks than there are steps. -/
theorem Affords.checkpointRun {start stop fuel : Nat} {stack : PatternStack}
    (affords : Affords plan slots (fuel + most) pass)
    (went : Pass.checkpointRun plan start stop stack fuel pass = .ok (after, flow)) :
    Spends plan slots most (after, flow) := by
  induction fuel generalizing pass with
  | zero => cases went
  | succ fuel ih =>
    rw [Nat.succ_add] at affords
    rw [Pass.checkpointRun] at went
    obtain ⟨candidate, -, went⟩ := Fault.bind_eq_ok.mp went
    cases candidate with
    | none =>
      cases went
      exact affords.mono fun _ => by omega
    | some place =>
      obtain ⟨⟨next, goesOn⟩, checked, went⟩ := Fault.bind_eq_ok.mp went
      have spends := affords.checkpoint checked
      cases goesOn with
      | halt =>
        cases went
        exact spends
      | proceed => exact ih spends went

/-- There are no more checkpoints at a token and inside of it than three for each of its bytes. -/
theorem Affords.steps {start stop size : Nat} (affords : Affords plan slots (3 * (size - start)) pass)
    (ordered : start < stop) (inText : stop ≤ size) :
    Affords plan slots
      (stop - start + 1 + plan.deadline.left pass.looks + (3 * (size - stop) + 1)) pass := by
  refine affords.mono fun never => ?_
  have none : plan.deadline.left pass.looks = 0 := by
    rw [never]
    rfl
  omega

/-- **A token stores no more breaks than there are slots for**, three for each byte of the text that is left
where there is no deadline. -/
theorem Affords.sink {token : Token} {state : ScanState} {size : Nat}
    (affords : Affords plan slots (3 * (size - token.start)) pass) (ordered : token.start < state.position)
    (inText : state.position ≤ size) (went : Pass.sink plan pass token state = .ok (after, flow)) :
    Spends plan slots (3 * (size - state.position)) (after, flow) := by
  rcases sink_cases went with ⟨-, checked⟩ | ⟨-, middle, goesOn, ran, left⟩
  · exact (affords.mono fun _ => by omega).checkpoint checked
  · have spends := (affords.steps ordered inText).checkpointRun ran
    rcases left with ⟨rfl, same⟩ | ⟨rfl, checked⟩
    · cases same
      exact spends
    · exact Affords.checkpoint spends checked

end Pass

end Highlight
