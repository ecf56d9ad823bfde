/-
**What a checkpoint can do.**

A checkpoint looks at the next old break and at the distance from the frontier, and may then store a break.
All that is to be proved of passes rests on what comes of this:

* `Pass.isOldPending_eq`: the next old break tells whether one is passed;
* `Pass.Checks`: all that a checkpoint can lead to, with what was the case before;
* `Pass.exists_checks`: **a checkpoint always goes well if it is not before the frontier**, and it leads to
  one of these;
* `Pass.checks_of_checkpoint`: one that went well was not before the frontier;
* `Pass.candidate?_eq_bind`: the places inside of unmatched text to choose from for the next one;
* `Pass.sink_induct`: what every checkpoint keeps true is true after a token.
-/

import Highlight.Proofs.Break.Operations
import Highlight.Highlighter.Pass

namespace Highlight.Pass

open BreakIndex (Entry)

variable {plan : PassPlan} {pass : Pass} {behind ahead : List Entry} {reached value : Break}

theorem isOldPending_eq
    (holds : pass.breaks.Holds (behind ++ (pass.frontier, reached) :: ahead)) (position : Nat) :
    ∃ pending, pass.isOldPending position = .ok pending ∧
      (pending = true ↔ ∃ entry ∈ ahead.head?, entry.2.position ≤ position) := by
  unfold isOldPending
  rw [holds.next_eq]
  cases ahead with
  | nil => exact ⟨false, rfl, by simp⟩
  | cons entry rest =>
    obtain ⟨next, following⟩ := entry
    have position_eq : pass.breaks.position next = .ok following.position :=
      holds.position_of_mem (by simp)
    refine ⟨decide (following.position ≤ position), ?_, by simp⟩
    rw [BreakIndex.firstId_cons, Fault.ok_bind]
    simp only [position_eq]
    rfl

/-- What a pass has come to when it has stored a break in a slot: it goes on, unless its time is over. -/
def advanced (plan : PassPlan) (pass : Pass) (breaks : BreakIndex) (id : BreakId)
    (restartEnd : Option Nat) : Pass × Flow :=
  if plan.deadline.isOver pass.looks then (⟨breaks, id, restartEnd, pass.looks + 1, some .deadline⟩, .halt)
  else (⟨breaks, id, restartEnd, pass.looks + 1, pass.interrupt⟩, .proceed)

section Advanced

variable (plan) (pass) (breaks : BreakIndex) (id : BreakId) (restartEnd : Option Nat)

@[simp]
theorem breaks_advanced : (advanced plan pass breaks id restartEnd).1.breaks = breaks := by
  unfold advanced
  split <;> rfl

@[simp]
theorem frontier_advanced : (advanced plan pass breaks id restartEnd).1.frontier = id := by
  unfold advanced
  split <;> rfl

@[simp]
theorem restartEnd_advanced : (advanced plan pass breaks id restartEnd).1.restartEnd = restartEnd := by
  unfold advanced
  split <;> rfl

/-- The pass goes on, or its time was over. -/
theorem interrupt_advanced :
    (advanced plan pass breaks id restartEnd).2 = .proceed ∧
        (advanced plan pass breaks id restartEnd).1.interrupt = pass.interrupt ∨
      (advanced plan pass breaks id restartEnd).2 = .halt ∧
        (advanced plan pass breaks id restartEnd).1.interrupt = some .deadline := by
  unfold advanced
  split
  · exact Or.inr ⟨rfl, rfl⟩
  · exact Or.inl ⟨rfl, rfl⟩

end Advanced

/-- What a pass has come to, by what storing a break led to. -/
def afterStoring (plan : PassPlan) (pass : Pass) (value : Break) (breaks : BreakIndex) :
    SetBreak → Pass × Flow
  | .fixedPoint _ => (⟨breaks, breaks.last, none, pass.looks, some .fixedPoint⟩, .halt)
  | .inserted id | .reused id => advanced plan pass breaks id
    (if isRestarted pass.restartEnd value.position then none else pass.restartEnd)

/-- It is time to store a break: there is none near enough, or an old one is passed. -/
def Due (plan : PassPlan) (reached : Break) (ahead : List Entry) (value : Break) : Prop :=
  reached.position + plan.spacing ≤ value.position ∨
    ∃ entry ∈ ahead.head?, entry.2.position ≤ value.position

/-- What a checkpoint at the place `value` leads to, with the frontier at `reached` and the old breaks
`ahead` of it. -/
inductive Checks (plan : PassPlan) (pass : Pass) (behind : List Entry) (reached : Break)
    (ahead : List Entry) (value : Break) : Pass × Flow → Prop where
  /-- It is not time to store a break. -/
  | notDue (early : ¬ Due plan reached ahead value) :
      Checks plan pass behind reached ahead value (pass, .proceed)
  /-- The break takes the place of old ones that are others. -/
  | inserted {passed rest : List Entry} {breaks : BreakIndex} {id : BreakId}
      (due : Due plan reached ahead value) (split : ahead = passed ++ rest)
      (unlike : ∀ entry ∈ passed, entry.2.position ≤ value.position ∧ entry.2 ≠ value)
      (before : ∀ entry ∈ rest.head?, value.position < entry.2.position)
      (holds : breaks.Holds (behind ++ (pass.frontier, reached) :: (id, value) :: rest)) :
      Checks plan pass behind reached ahead value (advanced plan pass breaks id
        (if isRestarted pass.restartEnd value.position then none else pass.restartEnd))
  /-- The same break was there, but those behind it may not be relied on. -/
  | reused {passed rest : List Entry} {breaks : BreakIndex} {id : BreakId}
      (due : Due plan reached ahead value) (split : ahead = passed ++ (id, value) :: rest)
      (unlike : ∀ entry ∈ passed, entry.2.position ≤ value.position ∧ entry.2 ≠ value)
      (restarted : isRestarted pass.restartEnd value.position = false)
      (holds : breaks.Holds (behind ++ (pass.frontier, reached) :: (id, value) :: rest)) :
      Checks plan pass behind reached ahead value (advanced plan pass breaks id pass.restartEnd)
  /-- The same break was there, and those behind it still hold. -/
  | met {passed rest : List Entry} {breaks : BreakIndex} {id : BreakId}
      (due : Due plan reached ahead value) (split : ahead = passed ++ (id, value) :: rest)
      (unlike : ∀ entry ∈ passed, entry.2.position ≤ value.position ∧ entry.2 ≠ value)
      (restarted : isRestarted pass.restartEnd value.position = true)
      (holds : breaks.Holds (behind ++ (pass.frontier, reached) :: (id, value) :: rest)) :
      Checks plan pass behind reached ahead value
        (⟨breaks, breaks.last, none, pass.looks, some .fixedPoint⟩, .halt)

/-- A checkpoint has room for its break: there is room in the index where it stores one, unless an old one
is passed. -/
def HasRoom (plan : PassPlan) (pass : Pass) (reached : Break) (ahead : List Entry) (value : Break) :
    Prop :=
  reached.position + plan.spacing ≤ value.position →
    (∀ entry ∈ ahead.head?, value.position < entry.2.position) → pass.breaks.HasRoom

/-- A checkpoint where it is time to store a break stores it, and ends the pass at a fixed point. -/
theorem checkpoint_eq_stored (holds : pass.breaks.Holds (behind ++ (pass.frontier, reached) :: ahead))
    (below : reached.position ≤ value.position) (due : Due plan reached ahead value)
    {result : SetBreak} {breaks : BreakIndex} (stored : pass.breaks.setBreak pass.frontier value
      (isRestarted pass.restartEnd value.position) = .ok (result, breaks)) :
    checkpoint plan pass value = .ok (afterStoring plan pass value breaks result) := by
  obtain ⟨pending, told, pends⟩ := isOldPending_eq holds value.position
  have isTime : ¬ (value.position - reached.position < plan.spacing ∧ ¬ pending = true) := by
    rintro ⟨near, none⟩
    rcases due with far | passed
    · omega
    · exact none (pends.mpr passed)
  rcases pass with ⟨index, frontier, restartEnd, looks, interrupt⟩
  simp only at stored
  unfold checkpoint
  simp only [holds.position_eq, Fault.ok_bind, checkedSub_eq_ok below, told, if_neg isTime, stored]
  cases result with
  | fixedPoint id => rfl
  | inserted id | reused id =>
    unfold afterStoring advanced
    simp only
    split <;> rfl

/-- **A checkpoint always goes well**, if it is not before the frontier and has room for its break. -/
theorem exists_checks (holds : pass.breaks.Holds (behind ++ (pass.frontier, reached) :: ahead))
    (room : HasRoom plan pass reached ahead value) (below : reached.position ≤ value.position) :
    ∃ outcome, checkpoint plan pass value = .ok outcome ∧
      Checks plan pass behind reached ahead value outcome := by
  by_cases due : Due plan reached ahead value
  · have roomHere (before : ∀ entry ∈ ahead.head?, value.position < entry.2.position) :
        pass.breaks.HasRoom := by
      refine room (due.resolve_right ?_) before
      rintro ⟨entry, atHead, passed⟩
      exact absurd (before entry atHead) (not_lt.mpr passed)
    obtain ⟨passed, rest, result, other, rfl, unlike, stored, outcome⟩ :=
      holds.setBreak_spec (isRestarted pass.restartEnd value.position) roomHere below
    have went := checkpoint_eq_stored holds below due stored
    rcases outcome with ⟨id, further, rfl, rfl, holdsOther⟩ | ⟨id, before, rfl, holdsOther⟩
    · cases restarted : isRestarted pass.restartEnd value.position with
      | true =>
        simp only [restarted, if_true] at went
        exact ⟨_, went, .met due rfl unlike restarted holdsOther⟩
      | false =>
        simp only [restarted, afterStoring, Bool.false_eq_true, if_false] at went
        exact ⟨_, went, .reused due rfl unlike restarted holdsOther⟩
    · exact ⟨_, went, .inserted due rfl unlike before holdsOther⟩
  · obtain ⟨pending, told, pends⟩ := isOldPending_eq holds value.position
    have early : value.position - reached.position < plan.spacing ∧ ¬ pending = true := by
      rw [pends]
      unfold Due at due
      exact ⟨by omega, fun passed => due (Or.inr passed)⟩
    unfold checkpoint
    simp only [holds.position_eq, Fault.ok_bind, checkedSub_eq_ok below, told, if_pos early]
    exact ⟨_, rfl, .notDue due⟩

/-! ### Places inside of unmatched text -/

/-- The least of some places that is strictly between two others is one of them, and none of those between
comes before it. -/
theorem min?_between {places : List Nat} {start stop : Nat} {least : Option Nat}
    (isLeast : (places.filter fun place =>
      decide (start < place) && decide (place < stop)).min? = least) :
    (∀ place ∈ least, place ∈ places ∧ start < place ∧ place < stop) ∧
      ∀ place ∈ places, start < place → place < stop → ∃ first ∈ least, first ≤ place := by
  have isBetween : ∀ place, place ∈ (places.filter fun place =>
      decide (start < place) && decide (place < stop)) ↔
        place ∈ places ∧ start < place ∧ place < stop := fun place => by
    rw [List.mem_filter, Bool.and_eq_true, decide_eq_true_eq, decide_eq_true_eq]
  constructor
  · rintro place rfl
    exact (isBetween place).mp (List.min?_mem isLeast)
  · intro place offered behind before
    have member := (isBetween place).mpr ⟨offered, behind, before⟩
    cases least with
    | none =>
      rw [List.min?_eq_none_iff.mp isLeast] at member
      cases member
    | some first => exact ⟨first, rfl, (List.min?_eq_some_iff.mp isLeast).2 place member⟩

/-- The places to choose from are the one where a break is due and that of the next old one. -/
theorem candidate?_eq_bind
    (holds : pass.breaks.Holds (behind ++ (pass.frontier, reached) :: ahead)) (start stop : Nat) :
    candidate? plan pass start stop = do
      let due := plan.text.ceil (← checkedAdd reached.position plan.spacing)
      let old := (ahead.head?.map fun entry => entry.2.position).toList
      return ((due :: old).filter fun place => decide (start < place) && decide (place < stop)).min? := by
  unfold candidate?
  simp only [holds.position_eq, Fault.ok_bind, holds.next_eq]
  cases ahead with
  | nil => rfl
  | cons entry rest =>
    obtain ⟨next, value⟩ := entry
    have position_eq : pass.breaks.position next = .ok value.position :=
      holds.position_of_mem (by simp)
    simp only [BreakIndex.firstId_cons, position_eq]
    rfl

/-! ### All checkpoints of a pass -/

section Keeps

variable {after : Pass} {flow : Flow}

/-- A checkpoint leaves the pass as it is, near the frontier, or stores the break. If the pass goes on then,
it has looked at the clock, and its time was not over. -/
theorem breaks_of_checkpoint (went : checkpoint plan pass value = .ok (after, flow)) :
    after = pass ∧
        (∀ reached, pass.breaks.position pass.frontier = .ok reached →
          value.position < reached + plan.spacing) ∨
      ∃ result, pass.breaks.setBreak pass.frontier value
          (isRestarted pass.restartEnd value.position) = .ok (result, after.breaks) ∧
        (flow = .proceed → plan.deadline.isOver pass.looks = false ∧ after.looks = pass.looks + 1) := by
  unfold checkpoint at went
  obtain ⟨reached, found, went⟩ := Fault.bind_eq_ok.mp went
  obtain ⟨distance, subtracted, went⟩ := Fault.bind_eq_ok.mp went
  obtain ⟨pending, -, went⟩ := Fault.bind_eq_ok.mp went
  split at went
  · rename_i near
    cases went
    refine Or.inl ⟨rfl, fun other foundToo => ?_⟩
    cases found.symm.trans foundToo
    have distance_eq := checkedSub_eq_ok_iff.mp subtracted
    omega
  · obtain ⟨⟨result, breaks⟩, stored, went⟩ := Fault.bind_eq_ok.mp went
    refine Or.inr ⟨result, ?_⟩
    have looks : ∀ {id marker}, (if plan.deadline.isOver pass.looks = true then
          return (⟨breaks, id, marker, pass.looks + 1, some .deadline⟩, .halt)
        else return (⟨breaks, id, marker, pass.looks + 1, pass.interrupt⟩, .proceed)) =
          (.ok (after, flow) : Except Fault (Pass × Flow)) → breaks = after.breaks ∧
            (flow = .proceed → plan.deadline.isOver pass.looks = false ∧
              after.looks = pass.looks + 1) := by
      intro id marker went
      split at went
      · cases went
        exact ⟨rfl, fun goesOn => nomatch goesOn⟩
      · rename_i early
        cases went
        exact ⟨rfl, fun _ => ⟨Bool.eq_false_iff.mpr early, rfl⟩⟩
    cases result with
    | fixedPoint id =>
      cases went
      exact ⟨stored, fun goesOn => nomatch goesOn⟩
    | inserted id => exact ⟨(looks went).1 ▸ stored, (looks went).2⟩
    | reused id => exact ⟨(looks went).1 ▸ stored, (looks went).2⟩

/-- A checkpoint makes a new slot only where there is no free one. -/
theorem grows_of_checkpoint {outcome : Pass × Flow} (went : checkpoint plan pass value = .ok outcome) :
    pass.breaks.Grows outcome.1.breaks := by
  obtain ⟨after, flow⟩ := outcome
  rcases breaks_of_checkpoint went with ⟨rfl, -⟩ | ⟨result, stored, -⟩
  · exact Or.inl rfl
  · exact BreakIndex.grows_of_setBreak stored

theorem size_le_of_checkpoint (went : checkpoint plan pass value = .ok (after, flow)) :
    pass.breaks.nodes.size ≤ after.breaks.nodes.size := (grows_of_checkpoint went).le_size

/-- A checkpoint that went well was not before the frontier. -/
theorem le_of_checkpoint {outcome : Pass × Flow}
    (holds : pass.breaks.Holds (behind ++ (pass.frontier, reached) :: ahead))
    (went : checkpoint plan pass value = .ok outcome) : reached.position ≤ value.position := by
  unfold checkpoint at went
  simp only [holds.position_eq, Fault.ok_bind] at went
  obtain ⟨distance, subtracted, -⟩ := Fault.bind_eq_ok.mp went
  exact (checkedSub_eq_ok_iff.mp subtracted).1

/-- A checkpoint that went well had room for its break if there are numbers for all slots after it. -/
theorem hasRoom_of_checkpoint {outcome : Pass × Flow}
    (holds : pass.breaks.Holds (behind ++ (pass.frontier, reached) :: ahead))
    (went : checkpoint plan pass value = .ok outcome) (numbered : outcome.1.breaks.Numbered) :
    HasRoom plan pass reached ahead value := by
  intro far before
  rcases breaks_of_checkpoint went with ⟨-, near⟩ | ⟨result, stored, -⟩
  · exact absurd far (not_le.mpr (near _ holds.position_eq))
  · exact holds.hasRoom_of_setBreak before stored numbered

/-- As long as there are numbers for all slots, a checkpoint that went well led to what checkpoints lead
to. -/
theorem checks_of_checkpoint {outcome : Pass × Flow}
    (holds : pass.breaks.Holds (behind ++ (pass.frontier, reached) :: ahead))
    (went : checkpoint plan pass value = .ok outcome) (numbered : outcome.1.breaks.Numbered) :
    reached.position ≤ value.position ∧ Checks plan pass behind reached ahead value outcome := by
  have below := le_of_checkpoint holds went
  obtain ⟨other, wentToo, checks⟩ :=
    exists_checks holds (hasRoom_of_checkpoint holds went numbered) below
  cases went.symm.trans wentToo
  exact ⟨below, checks⟩

/-- A break that a pass checks when it is shown a token: the one where the scan has come to, or one at a
place that it has chosen inside of text that no pattern matches. -/
inductive Chosen (plan : PassPlan) (pass : Pass) (token : Token) (state : ScanState) : Break → Prop where
  | boundary : Chosen plan pass token state ⟨state.position, token.kind, state.stack⟩
  | inside {place : Nat} (plain : token.plain = true)
      (here : candidate? plan pass token.start state.position = .ok (some place)) :
      Chosen plan pass token state ⟨place, .inner, state.stack⟩

/-- What every checkpoint inside of text that no pattern matches keeps true of a pass is true after all of
them. -/
theorem checkpointRun_induct {motive : Pass → Prop} {start stop fuel : Nat} {stack : PatternStack}
    (check : ∀ {pass after : Pass} {flow : Flow} {place : Nat}, motive pass →
      candidate? plan pass start stop = .ok (some place) →
        checkpoint plan pass ⟨place, .inner, stack⟩ = .ok (after, flow) → motive after)
    (begins : motive pass)
    (went : checkpointRun plan start stop stack fuel pass = .ok (after, flow)) : motive after := by
  induction fuel generalizing pass with
  | zero => cases went
  | succ fuel ih =>
    rw [checkpointRun] at went
    obtain ⟨candidate, found, went⟩ := Fault.bind_eq_ok.mp went
    cases candidate with
    | none =>
      cases went
      exact begins
    | some place =>
      obtain ⟨⟨next, goesOn⟩, checked, went⟩ := Fault.bind_eq_ok.mp went
      have holdsNext := check begins found checked
      cases goesOn with
      | halt =>
        cases went
        exact holdsNext
      | proceed => exact ih holdsNext went

/-- What a token leads to: the checkpoint where it ends, and in unmatched text those inside of it first,
which may end the pass. -/
theorem sink_cases {token : Token} {state : ScanState} {outcome : Pass × Flow}
    (went : sink plan pass token state = .ok outcome) :
    token.plain = false ∧
        checkpoint plan pass ⟨state.position, token.kind, state.stack⟩ = .ok outcome ∨
      token.plain = true ∧ ∃ middle flow,
        checkpointRun plan token.start state.position state.stack
          (state.position - token.start + 1 + plan.deadline.left pass.looks) pass = .ok (middle, flow) ∧
        (flow = .halt ∧ outcome = (middle, .halt) ∨ flow = .proceed ∧
          checkpoint plan middle ⟨state.position, token.kind, state.stack⟩ = .ok outcome) := by
  unfold sink at went
  dsimp only at went
  split at went
  · rename_i plain
    obtain ⟨⟨middle, flow⟩, ran, went⟩ := Fault.bind_eq_ok.mp went
    refine Or.inr ⟨plain, middle, flow, ran, ?_⟩
    cases flow with
    | halt =>
      cases went
      exact Or.inl ⟨rfl, rfl⟩
    | proceed => exact Or.inr ⟨rfl, went⟩
  · rename_i notPlain
    exact Or.inl ⟨Bool.not_eq_true _ ▸ notPlain, went⟩

/-- **What every checkpoint keeps true of a pass is true after a token.** -/
theorem sink_induct {motive : Pass → Prop} {token : Token} {state : ScanState}
    (check : ∀ {pass after : Pass} {flow : Flow} {value : Break}, motive pass →
      Chosen plan pass token state value → checkpoint plan pass value = .ok (after, flow) →
        motive after)
    (begins : motive pass) (went : sink plan pass token state = .ok (after, flow)) :
    motive after := by
  rcases sink_cases went with ⟨-, checked⟩ | ⟨plain, middle, goesOn, ran, left⟩
  · exact check begins .boundary checked
  · have holdsMiddle := checkpointRun_induct
      (fun holds found checked => check holds (.inside plain found) checked) begins ran
    rcases left with ⟨-, same⟩ | ⟨-, checked⟩
    · cases same
      exact holdsMiddle
    · exact check holdsMiddle .boundary checked

/-- Checkpoints make no slot less. -/
theorem size_le_of_checkpointRun {start stop fuel : Nat} {stack : PatternStack}
    (went : checkpointRun plan start stop stack fuel pass = .ok (after, flow)) :
    pass.breaks.nodes.size ≤ after.breaks.nodes.size :=
  checkpointRun_induct (motive := fun next => pass.breaks.nodes.size ≤ next.breaks.nodes.size)
    (fun before _ checked => before.trans (size_le_of_checkpoint checked)) le_rfl went

theorem size_le_of_sink {token : Token} {state : ScanState}
    (went : sink plan pass token state = .ok (after, flow)) :
    pass.breaks.nodes.size ≤ after.breaks.nodes.size :=
  sink_induct (motive := fun next => pass.breaks.nodes.size ≤ next.breaks.nodes.size)
    (fun before _ checked => before.trans (size_le_of_checkpoint checked)) le_rfl went

end Keeps

end Highlight.Pass
