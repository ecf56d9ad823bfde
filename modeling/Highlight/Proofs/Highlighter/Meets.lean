/-
**A pass stops at the first old break that its scan meets.**

A scan reports where it comes to, and the places inside of text that no pattern matches. An old break is met
if it is one of these. What a pass makes of old breaks depends on this only, and not on the distance between
checkpoints:

* `ScanReport.Meets`: the breaks that a report tells of;
* `Pass.Leaves`: what a pass leaves of old breaks;
* `Pass.Expects`: **as long as a pass goes on it has met none of those it has gone by**, and
  `Pass.Found`: where it stops early it has met the next one;
* `Pass.Expects.checkpoint`, `Pass.Expects.checkpointRun`, `Pass.Expects.sink`, `Pass.Expects.feed`: each
  step of a pass goes on so or stops so, if its time is never over and there are numbers for all slots.
-/

import Highlight.Proofs.Highlighter.Placed
import Highlight.Proofs.Scan.Feed

namespace Highlight

open BreakIndex (Entry)

/-! ### Breaks that are met -/

namespace ScanReport

/-- The breaks that a report tells of. -/
inductive Meets (report : ScanReport) : Break → Prop where
  /-- The break where the scan has come to. -/
  | boundary : Meets report ⟨report.state.position, report.token.kind, report.state.stack⟩
  /-- A break strictly inside of a token where no pattern matches. -/
  | inside {place : Nat} (plain : report.token.plain = true) (behind : report.token.start < place)
      (before : place < report.state.position) : Meets report ⟨place, .inner, report.state.stack⟩

/-- The breaks that any of some reports tells of. -/
def Met (reports : List ScanReport) (value : Break) : Prop :=
  ∃ report ∈ reports, report.Meets value

variable {report : ScanReport} {reports : List ScanReport} {value : Break} {start stop : Nat}

theorem Meets.between (meets : report.Meets value)
    (ordered : report.token.start < report.state.position) :
    report.token.start < value.position ∧ value.position ≤ report.state.position := by
  cases meets with
  | boundary => exact ⟨ordered, le_rfl⟩
  | inside plain behind before => exact ⟨behind, before.le⟩

/-- Reports that follow each other tell of a break once. -/
theorem Follow.meets_of_between (follow : Follow start reports stop) (member : report ∈ reports)
    (met : Met reports value) (behind : report.token.start < value.position)
    (before : value.position ≤ report.state.position) : report.Meets value := by
  induction reports generalizing start with
  | nil => cases member
  | cons first rest ih =>
    obtain ⟨begins, further, follow⟩ := follow
    obtain ⟨other, otherMember, meets⟩ := met
    rcases List.mem_cons.mp member with rfl | later <;>
      rcases List.mem_cons.mp otherMember with rfl | otherLater
    · exact meets
    · obtain ⟨notBefore, ordered, -⟩ := follow.between otherLater
      have := (meets.between ordered).1
      omega
    · have := (follow.between later).1
      have := (meets.between (begins.trans_lt further)).2
      omega
    · exact ih follow later ⟨other, otherLater, meets⟩

end ScanReport

namespace Pass

variable {met : Break → Prop} {front kept : List Entry} {plan : PassPlan} {pass : Pass}
  {value : Break} {bound : Nat} {outcome : Pass × Flow}

/-- Of the old breaks `kept`, ahead of those of `front`, those of `rest` are left. None of those before is
met, and where they were there are breaks that are. -/
structure Leaves (met : Break → Prop) (front kept made rest : List Entry) (index : BreakIndex) : Prop where
  unmet : ∃ passed, kept = passed ++ rest ∧ ∀ entry ∈ passed, ¬ met entry.2
  stored : ∀ entry ∈ made, met entry.2
  holds : index.Holds (front ++ made ++ rest)

/-- A pass may meet an old break from `bound` on. It has met none before. -/
structure Expects (met : Break → Prop) (front kept : List Entry) (bound : Nat) (pass : Pass) : Prop where
  running : pass.interrupt = none
  unmarked : pass.restartEnd = none
  leaves : ∃ made rest, Leaves met front kept made rest pass.breaks ∧
    (∃ behind reached, front ++ made = behind ++ [(pass.frontier, reached)]) ∧
    ∀ entry ∈ rest, bound ≤ entry.2.position

/-- A pass has ended at the old break `value`, the first that is met. -/
structure Found (met : Break → Prop) (front kept : List Entry) (value : Break) (pass : Pass) : Prop where
  interrupt : pass.interrupt = some .fixedPoint
  leaves : ∃ made id rest, Leaves met front kept made ((id, value) :: rest) pass.breaks

/-- A step of a pass goes on to `bound`, or it has ended at an old break that the step reaches. -/
def Seeks (met : Break → Prop) (front kept : List Entry) (reaches : Break → Prop) (bound : Nat) :
    Pass × Flow → Prop
  | (pass, .proceed) => Expects met front kept bound pass
  | (pass, .halt) => ∃ value, reaches value ∧ Found met front kept value pass

theorem Seeks.mono {reaches other : Break → Prop} {outcome : Pass × Flow}
    (seeks : Seeks met front kept reaches bound outcome) (implies : ∀ value, reaches value → other value) :
    Seeks met front kept other bound outcome := by
  obtain ⟨pass, flow⟩ := outcome
  cases flow with
  | proceed => exact seeks
  | halt =>
    obtain ⟨value, reached, found⟩ := seeks
    exact ⟨value, implies value reached, found⟩

section Steps

variable (ordered : BreakIndex.Ordered kept) (never : plan.deadline = .never)
include ordered never

/-- A checkpoint at a place that is met, before which none is left to meet. -/
theorem Expects.checkpoint (expects : Expects met front kept bound pass) (isMet : met value)
    (only : ∀ other, met other → bound ≤ other.position → other.position ≤ value.position →
      other = value) (went : Pass.checkpoint plan pass value = .ok outcome)
    (numbered : outcome.1.breaks.Numbered) :
    Seeks met front kept (· = value) (value.position + 1) outcome := by
  obtain ⟨running, unmarked, made, rest, ⟨⟨passed, rfl, unmet⟩, stored, holds⟩,
    ⟨behind, reached, listed⟩, beyond⟩ := expects
  have orderedRest := (List.pairwise_append.mp ordered).2.1
  have holdsHere := holds
  rw [listed, ← List.append_cons] at holdsHere
  have unmetToo : ∀ {gone left}, rest = gone ++ left →
      (∀ entry ∈ gone, entry.2.position ≤ value.position ∧ entry.2 ≠ value) →
      ∃ passed', passed ++ rest = passed' ++ left ∧ ∀ entry ∈ passed', ¬ met entry.2 := by
    rintro gone left rfl unlike
    refine ⟨passed ++ gone, (List.append_assoc _ _ _).symm, fun entry member => ?_⟩
    rcases List.mem_append.mp member with old | new
    · exact unmet entry old
    · intro meets
      exact (unlike entry new).2 (only entry.2 meets
        (beyond entry (List.mem_append_left _ new)) (unlike entry new).1)
  cases (checks_of_checkpoint holdsHere went numbered).2 with
  | notDue early =>
    refine ⟨running, unmarked, made, rest, ⟨⟨passed, rfl, unmet⟩, stored, holds⟩,
      ⟨behind, reached, listed⟩, BreakIndex.Ordered.le_of_head orderedRest fun entry atHead => ?_⟩
    exact not_le.mp fun near => early (Or.inr ⟨entry, atHead, near⟩)
  | @inserted gone left breaks id due split unlike before holdsAfter =>
    have goesOn : ¬ plan.deadline.isOver pass.looks = true := by
      rw [never]
      exact Bool.false_ne_true
    unfold advanced
    rw [if_neg goesOn]
    have listedAfter : front ++ (made ++ [(id, value)]) =
        (behind ++ [(pass.frontier, reached)]) ++ [(id, value)] := by
      rw [← List.append_assoc, listed]
    rw [List.append_cons, List.append_cons, ← listedAfter] at holdsAfter
    subst split
    refine ⟨running, ?_, made ++ [(id, value)], left, ⟨unmetToo rfl unlike, ?_, holdsAfter⟩,
      ⟨_, value, listedAfter⟩,
      BreakIndex.Ordered.le_of_head (List.pairwise_append.mp orderedRest).2.1 before⟩
    · show (if isRestarted pass.restartEnd value.position = true then none else pass.restartEnd) = none
      rw [unmarked]
      rfl
    · intro entry member
      rcases List.mem_append.mp member with old | new
      · exact stored entry old
      · rw [List.mem_singleton.mp new]
        exact isMet
  | reused due split unlike restarted holdsAfter =>
    rw [unmarked] at restarted
    cases restarted
  | @met gone left breaks id due split unlike restarted holdsAfter =>
    rw [List.append_cons, ← listed] at holdsAfter
    exact ⟨value, rfl, rfl, made, id, left, unmetToo split unlike, stored, holdsAfter⟩

/-- The checkpoints inside of text that no pattern matches, where every place is met. -/
theorem Expects.checkpointRun {start stop fuel : Nat} {stack : PatternStack}
    (expects : Expects met front kept bound pass) (behind : start < bound)
    (isMet : ∀ place, start < place → place < stop → met ⟨place, .inner, stack⟩)
    (only : ∀ other, met other → start < other.position → other.position < stop →
      other.kind = .inner ∧ other.stack = stack)
    (went : Pass.checkpointRun plan start stop stack fuel pass = .ok outcome)
    (numbered : outcome.1.breaks.Numbered) :
    Seeks met front kept
      (fun value => ∃ place, start < place ∧ place < stop ∧ value = ⟨place, .inner, stack⟩) stop
      outcome := by
  induction fuel generalizing pass bound with
  | zero => cases went
  | succ fuel ih =>
    obtain ⟨running, unmarked, made, rest, leaves, ⟨front', reached, listed⟩, beyond⟩ := expects
    have holdsHere := leaves.holds
    rw [listed, ← List.append_cons] at holdsHere
    have orderedRest : BreakIndex.Ordered rest := by
      obtain ⟨passed, rfl, -⟩ := leaves.unmet
      exact (List.pairwise_append.mp ordered).2.1
    rw [Pass.checkpointRun, candidate?_eq_bind holdsHere] at went
    obtain ⟨candidate, found, went⟩ := Fault.bind_eq_ok.mp went
    obtain ⟨due, -, found⟩ := Fault.bind_eq_ok.mp found
    obtain ⟨between, least⟩ := min?_between (Except.ok.inj found)
    -- No old break is left before the candidate, or before the end of the text if there is none.
    have first : ∀ place, (∀ other ∈ candidate, place ≤ other) → place ≤ stop →
        ∀ entry ∈ rest, place ≤ entry.2.position := by
      intro place notBefore inside
      refine BreakIndex.Ordered.le_of_head orderedRest fun entry atHead => ?_
      by_contra early
      obtain ⟨other, here, notBehind⟩ := least entry.2.position
        (List.mem_cons_of_mem _ (by rw [atHead]; simp))
        (behind.trans_le (beyond entry (List.mem_of_mem_head? atHead))) (by omega)
      have := notBefore other here
      omega
    cases candidate with
    | none =>
      cases went
      exact ⟨running, unmarked, made, rest, leaves, ⟨front', reached, listed⟩,
        first stop (fun other here => absurd here (Option.not_mem_none other)) le_rfl⟩
    | some place =>
      obtain ⟨-, further, inside⟩ := between place rfl
      have expectsHere : Expects met front kept place pass :=
        ⟨running, unmarked, made, rest, leaves, ⟨front', reached, listed⟩,
          first place (fun other here => (Option.some_inj.mp here).le) inside.le⟩
      have here : ∀ other, met other → place ≤ other.position → other.position ≤ place →
          other = ⟨place, .inner, stack⟩ := by
        rintro ⟨position, kind, around⟩ meets notBefore notBehind
        obtain rfl : position = place := le_antisymm notBehind notBefore
        obtain ⟨rfl, rfl⟩ := only _ meets further inside
        rfl
      obtain ⟨⟨middle, flow⟩, checked, went⟩ := Fault.bind_eq_ok.mp went
      have next := expectsHere.checkpoint ordered never (isMet place further inside) here checked
      cases flow with
      | halt =>
        cases went
        exact (next numbered).mono fun value same => ⟨place, further, inside, same⟩
      | proceed =>
        exact ih (next ((size_le_of_checkpointRun went).trans numbered))
          (further.trans (Nat.lt_succ_self place)) went

variable {report : ScanReport}

/-- What a pass makes of a report, if it tells of every break that is met in its token. -/
theorem Expects.sink (expects : Expects met front kept (report.token.start + 1) pass)
    (further : report.token.start < report.state.position)
    (tells : ∀ value, report.Meets value → met value)
    (only : ∀ value, met value → report.token.start < value.position →
      value.position ≤ report.state.position → report.Meets value)
    (went : Pass.sink plan pass report.token report.state = .ok outcome)
    (numbered : outcome.1.breaks.Numbered) :
    Seeks met front kept report.Meets (report.state.position + 1) outcome := by
  -- Where the scan has come to, no break is left to meet but the one there.
  have last : ∀ {middle : Pass} {bound : Nat}, Expects met front kept bound middle →
      report.token.start < bound → (report.token.plain = true → report.state.position ≤ bound) →
      Pass.checkpoint plan middle ⟨report.state.position, report.token.kind, report.state.stack⟩ =
        .ok outcome →
      Seeks met front kept report.Meets (report.state.position + 1) outcome := by
    intro middle bound expects behind whole went
    have here : ∀ other, met other → bound ≤ other.position →
        other.position ≤ report.state.position →
        other = ⟨report.state.position, report.token.kind, report.state.stack⟩ := by
      intro other meets notBefore notBehind
      cases only other meets (behind.trans_le notBefore) notBehind with
      | boundary => rfl
      | inside plain _ before => exact absurd ((whole plain).trans notBefore) (not_le.mpr before)
    exact (expects.checkpoint ordered never (tells _ .boundary) here went numbered).mono
      fun value same => same ▸ .boundary
  rcases sink_cases went with ⟨notPlain, checked⟩ | ⟨plain, middle, flow, ran, left⟩
  · exact last expects (Nat.lt_succ_self _)
      (fun plain => by cases notPlain.symm.trans plain) checked
  · have only' : ∀ other, met other → report.token.start < other.position →
        other.position < report.state.position →
        other.kind = .inner ∧ other.stack = report.state.stack := by
      intro other meets behind before
      cases only other meets behind before.le with
      | boundary => exact absurd before (lt_irrefl _)
      | inside => exact ⟨rfl, rfl⟩
    have next := expects.checkpointRun ordered never (Nat.lt_succ_self _)
      (fun place behind before => tells _ (.inside plain behind before)) only' ran
    rcases left with ⟨rfl, rfl⟩ | ⟨rfl, checked⟩
    · refine (next numbered).mono fun value inside => ?_
      obtain ⟨place, behind, before, rfl⟩ := inside
      exact .inside plain behind before
    · exact last (next ((size_le_of_checkpoint checked).trans numbered)) further (fun _ => le_rfl)
        checked

variable {reports : List ScanReport} {start stop : Nat} {after : Pass}

omit ordered never in
/-- A pass that is handed reports makes no slot less. -/
theorem size_le_of_feed {halted : Option ScanReport}
    (went : ScanReport.feed (Pass.sink plan) reports pass = .ok (after, halted)) :
    pass.breaks.nodes.size ≤ after.breaks.nodes.size := by
  induction reports generalizing pass with
  | nil =>
    cases went
    exact le_rfl
  | cons report rest ih =>
    rw [ScanReport.feed] at went
    obtain ⟨⟨middle, flow⟩, taken, went⟩ := Fault.bind_eq_ok.mp went
    have before := size_le_of_sink taken
    cases flow with
    | halt =>
      cases went
      exact before
    | proceed => exact before.trans (ih went)

/-- What a pass makes of reports that follow each other, if they tell of every break that is met in their
tokens. -/
theorem Expects.feed_of_tells {halted : Option ScanReport} (follow : ScanReport.Follow start reports stop)
    (expects : Expects met front kept (start + 1) pass)
    (tells : ∀ report ∈ reports, ∀ value, report.Meets value → met value)
    (only : ∀ report ∈ reports, ∀ value, met value → report.token.start < value.position →
      value.position ≤ report.state.position → report.Meets value)
    (went : ScanReport.feed (Pass.sink plan) reports pass = .ok (after, halted))
    (numbered : after.breaks.Numbered) :
    (halted = none ∧ Expects met front kept (stop + 1) after) ∨
      ∃ report ∈ reports, halted = some report ∧
        ∃ value, report.Meets value ∧ Found met front kept value after := by
  induction reports generalizing start pass with
  | nil =>
    cases follow
    cases went
    exact Or.inl ⟨rfl, expects⟩
  | cons report rest ih =>
    obtain ⟨begins, further, follow⟩ := follow
    subst begins
    rw [ScanReport.feed] at went
    obtain ⟨⟨middle, flow⟩, taken, went⟩ := Fault.bind_eq_ok.mp went
    have next := expects.sink ordered never further (tells report List.mem_cons_self)
      (only report List.mem_cons_self) taken
    cases flow with
    | halt =>
      cases went
      exact Or.inr ⟨report, List.mem_cons_self, rfl, next numbered⟩
    | proceed =>
      have numberedToo : middle.breaks.Numbered := (size_le_of_feed went).trans numbered
      refine (ih follow (next numberedToo) (fun other member => tells other (List.mem_cons_of_mem _ member))
        (fun other member => only other (List.mem_cons_of_mem _ member)) went).imp_right ?_
      rintro ⟨other, member, found⟩
      exact ⟨other, List.mem_cons_of_mem _ member, found⟩

/-- **A pass that is handed reports goes on to their end, or stops at the first old break that they
tell of.** -/
theorem Expects.feed {halted : Option ScanReport} (follow : ScanReport.Follow start reports stop)
    (expects : Expects (ScanReport.Met reports) front kept (start + 1) pass)
    (went : ScanReport.feed (Pass.sink plan) reports pass = .ok (after, halted))
    (numbered : after.breaks.Numbered) :
    (halted = none ∧ Expects (ScanReport.Met reports) front kept (stop + 1) after) ∨
      ∃ report ∈ reports, halted = some report ∧
        ∃ value, report.Meets value ∧ Found (ScanReport.Met reports) front kept value after :=
  expects.feed_of_tells ordered never follow (fun report member _ meets => ⟨report, member, meets⟩)
    (fun _ member _ met behind before => follow.meets_of_between member met behind before) went numbered

end Steps

end Pass

end Highlight
