/-
**The moves of a scan, one after the other.**

What a scan has done when it goes well is told by the moves it has made, step by step and window by
window. The sink only takes their tokens, and it may call a halt:

* `Scanner.Steps`, `Scanner.Searched`, `Scanner.Scanned`: what a step, the search of a window and a scan
  have done;
* `Scanner.step_eq_ok_iff`, `Scanner.scanWindow_eq_ok_iff`, `Scanner.scanTo_eq_ok_iff`: **they have done
  that exactly if they go well**;
* `ScanReport.Taken`: reports that a sink has been handed, `Scanner.Scanned.taken`;
* `Grammar.Course`: moves each of which is made where the one before led to, `Scanner.Scanned.course`;
* `Scanner.run_traced`: **a scan is made of such moves**, unless its sink fails at what it is handed.
-/

import Highlight.Proofs.Scan.Feed

namespace Highlight

variable {σ : Type}

namespace Scanner

/-! ### What a scan has done -/

/-- The moves that a step has made, and where it has got to. -/
inductive Steps (scanner : Scanner) (sink : Sink σ) (window : Window) (state : ScanState)
    (collected : σ) : List Move → Progress σ → Prop where
  | none {move : Move} {after : Progress σ} (found : scanner.grammar.search window state = .ok none)
      (moved : scanner.grammar.plainMove state window.searchEnd = .ok move)
      (handed : deliver sink collected move = .ok after) :
      Steps scanner sink window state collected [move] after
  | here {choice : Choice} {move : Move} {after : Progress σ}
      (found : scanner.grammar.search window state = .ok (some choice))
      (start : ¬ state.position < window.offset + choice.found.start)
      (moved : scanner.grammar.matchMove window state choice = .ok move)
      (handed : deliver sink collected move = .ok after) :
      Steps scanner sink window state collected [move] after
  | halted {choice : Choice} {move : Move} {after : Progress σ}
      (found : scanner.grammar.search window state = .ok (some choice))
      (start : state.position < window.offset + choice.found.start)
      (moved : scanner.grammar.plainMove state (window.offset + choice.found.start) = .ok move)
      (handed : deliver sink collected move = .ok after) (halts : after.flow = .halt) :
      Steps scanner sink window state collected [move] after
  | ahead {choice : Choice} {before move : Move} {middle after : Progress σ}
      (found : scanner.grammar.search window state = .ok (some choice))
      (start : state.position < window.offset + choice.found.start)
      (moved : scanner.grammar.plainMove state (window.offset + choice.found.start) = .ok before)
      (handed : deliver sink collected before = .ok middle) (proceeds : middle.flow = .proceed)
      (movedOver : scanner.grammar.matchMove window middle.state choice = .ok move)
      (handedToo : deliver sink middle.collected move = .ok after) :
      Steps scanner sink window state collected [before, move] after

/-- The moves of the steps that a window has been searched in, and where the scan has got to. -/
inductive Searched (scanner : Scanner) (sink : Sink σ) (window : Window) (limit : Nat) :
    ScanState → σ → List (List Move) → Progress σ → Prop where
  | ended {state : ScanState} {collected : σ} (used : ¬ state.position < window.searchEnd) :
      Searched scanner sink window limit state collected [] ⟨collected, state, .proceed⟩
  | last {state : ScanState} {collected : σ} {moves : List Move} {after : Progress σ}
      (inside : state.position < window.searchEnd)
      (steps : Steps scanner sink window state collected moves after)
      (leaves : after.flow = .halt ∨ limit ≤ after.state.position) :
      Searched scanner sink window limit state collected [moves] after
  | step {state : ScanState} {collected : σ} {moves : List Move} {rest : List (List Move)}
      {next after : Progress σ} (inside : state.position < window.searchEnd)
      (steps : Steps scanner sink window state collected moves next)
      (proceeds : next.flow = .proceed) (before : ¬ limit ≤ next.state.position)
      (smaller : window.budget next.state < window.budget state)
      (searched : Searched scanner sink window limit next.state next.collected rest after) :
      Searched scanner sink window limit state collected (moves :: rest) after

/-- The moves of the steps of a scan, and where it has got to. -/
inductive Scanned (scanner : Scanner) (text : Text) (sink : Sink σ) (limit : Nat) :
    ScanState → σ → List (List Move) → Progress σ → Prop where
  | ended {state : ScanState} {collected : σ} (reached : ¬ state.position < limit) :
      Scanned scanner text sink limit state collected [] ⟨collected, state, .proceed⟩
  | halted {state : ScanState} {collected : σ} {stop : Nat} {window : Window}
      {steps : List (List Move)} {after : Progress σ} (before : state.position < limit)
      (added : checkedAdd state.position scanner.unit = .ok stop)
      (around : Window.around text state.position (text.ceil stop) scanner.grammar.maxExtend =
        .ok window)
      (searched : Searched scanner sink window limit state collected steps after)
      (halts : after.flow = .halt) : Scanned scanner text sink limit state collected steps after
  | window {state : ScanState} {collected : σ} {stop : Nat} {window : Window}
      {steps rest : List (List Move)} {next after : Progress σ} (before : state.position < limit)
      (added : checkedAdd state.position scanner.unit = .ok stop)
      (around : Window.around text state.position (text.ceil stop) scanner.grammar.maxExtend =
        .ok window)
      (searched : Searched scanner sink window limit state collected steps next)
      (proceeds : next.flow = .proceed) (further : state.position < next.state.position)
      (scanned : Scanned scanner text sink limit next.state next.collected rest after) :
      Scanned scanner text sink limit state collected (steps ++ rest) after

variable {scanner : Scanner} {sink : Sink σ} {window : Window} {state : ScanState} {collected : σ}
  {after : Progress σ} {limit : Nat} {text : Text}

theorem step_eq_ok_iff :
    scanner.step sink window state collected = .ok after ↔
      ∃ moves, Steps scanner sink window state collected moves after := by
  constructor
  · intro went
    unfold step at went
    obtain ⟨choice, found, went⟩ := Fault.bind_eq_ok.mp went
    cases choice with
    | none =>
      obtain ⟨move, moved, handed⟩ := Fault.bind_eq_ok.mp went
      exact ⟨_, .none found moved handed⟩
    | some choice =>
      simp only at went
      split at went
      · rename_i start
        obtain ⟨move, moved, went⟩ := Fault.bind_eq_ok.mp went
        obtain ⟨middle, handed, went⟩ := Fault.bind_eq_ok.mp went
        split at went
        · rename_i halts
          cases went
          exact ⟨_, .halted found start moved handed halts⟩
        · rename_i proceeds
          obtain ⟨move, movedOver, handedToo⟩ := Fault.bind_eq_ok.mp went
          exact ⟨_, .ahead found start moved handed proceeds movedOver handedToo⟩
      · rename_i start
        obtain ⟨move, moved, handed⟩ := Fault.bind_eq_ok.mp went
        exact ⟨_, .here found start moved handed⟩
  · rintro ⟨moves, steps⟩
    unfold step
    cases steps with
    | none found moved handed => simp only [found, Fault.ok_bind, moved, handed]
    | here found start moved handed =>
      simp only [found, Fault.ok_bind, if_neg start, moved, handed]
    | halted found start moved handed halts =>
      simp only [found, Fault.ok_bind, if_pos start, moved, handed, halts]
      rfl
    | ahead found start moved handed proceeds movedOver handedToo =>
      simp only [found, Fault.ok_bind, if_pos start, moved, handed, proceeds, movedOver, handedToo]

theorem scanWindow_eq_ok_iff :
    scanner.scanWindow sink window limit state collected = .ok after ↔
      ∃ steps, Searched scanner sink window limit state collected steps after := by
  constructor
  · induction left : window.budget state using Nat.strong_induction_on
      generalizing state collected with
    | _ left ih =>
      intro went
      rw [scanWindow] at went
      split at went
      · rename_i inside
        obtain ⟨next, stepped, went⟩ := Fault.bind_eq_ok.mp went
        obtain ⟨moves, steps⟩ := step_eq_ok_iff.mp stepped
        split at went
        · rename_i halts
          cases went
          exact ⟨_, .last inside steps (Or.inl halts)⟩
        · rename_i proceeds
          split at went
          · rename_i reached
            cases went
            exact ⟨_, .last inside steps (Or.inr reached)⟩
          · rename_i before
            split at went
            · rename_i smaller
              obtain ⟨rest, searched⟩ := ih _ (left ▸ smaller) rfl went
              exact ⟨_, .step inside steps proceeds before smaller searched⟩
            · cases went
      · rename_i used
        cases went
        exact ⟨_, .ended used⟩
  · rintro ⟨steps, searched⟩
    induction searched with
    | ended used =>
      rw [scanWindow, if_neg used]
      rfl
    | @last state collected moves after inside steps leaves =>
      rw [scanWindow, if_pos inside, step_eq_ok_iff.mpr ⟨moves, steps⟩, Fault.ok_bind]
      rcases after with ⟨collected, next, flow⟩
      cases flow with
      | halt => rfl
      | proceed =>
        simp only [reduceCtorEq, false_or] at leaves ⊢
        rw [if_pos leaves]
        rfl
    | @step state collected moves rest next after inside steps proceeds before smaller _ ih =>
      rw [scanWindow, if_pos inside, step_eq_ok_iff.mpr ⟨moves, steps⟩, Fault.ok_bind]
      simp only [proceeds, if_neg before, if_pos smaller, ih]

theorem scanTo_eq_ok_iff :
    scanner.scanTo text sink limit state collected = .ok after ↔
      ∃ steps, Scanned scanner text sink limit state collected steps after := by
  constructor
  · induction left : limit - state.position using Nat.strong_induction_on
      generalizing state collected with
    | _ left ih =>
      intro went
      rw [scanTo] at went
      split at went
      · rename_i before
        obtain ⟨stop, added, went⟩ := Fault.bind_eq_ok.mp went
        obtain ⟨window, around, went⟩ := Fault.bind_eq_ok.mp went
        obtain ⟨next, inWindow, went⟩ := Fault.bind_eq_ok.mp went
        obtain ⟨steps, searched⟩ := scanWindow_eq_ok_iff.mp inWindow
        split at went
        · rename_i halts
          cases went
          exact ⟨_, .halted before added around searched halts⟩
        · rename_i proceeds
          split at went
          · rename_i further
            obtain ⟨rest, scanned⟩ := ih (limit - next.state.position) (by omega) rfl went
            exact ⟨_, .window before added around searched proceeds further scanned⟩
          · cases went
      · rename_i reached
        cases went
        exact ⟨_, .ended reached⟩
  · rintro ⟨steps, scanned⟩
    induction scanned with
    | ended reached =>
      rw [scanTo, if_neg reached]
      rfl
    | halted before added around searched halts =>
      rw [scanTo, if_pos before, added, Fault.ok_bind]
      simp only [around, Fault.ok_bind, scanWindow_eq_ok_iff.mpr ⟨_, searched⟩, halts]
      rfl
    | window before added around searched proceeds further _ ih =>
      rw [scanTo, if_pos before, added, Fault.ok_bind]
      simp only [around, Fault.ok_bind, scanWindow_eq_ok_iff.mpr ⟨_, searched⟩, proceeds,
        if_pos further, ih]

end Scanner

/-! ### What the sink has been handed -/

/-- The reports of moves: their tokens, each with the state behind it. -/
def Move.reports (moves : List Move) : List ScanReport :=
  moves.filterMap fun move => move.token.map fun token => ⟨token, move.state⟩

namespace ScanReport

/-- A sink is handed reports one after the other and takes them all. Only at the last one it may call a
halt. -/
inductive Taken (sink : Sink σ) : σ → List ScanReport → σ → Flow → Prop where
  | nil {collected : σ} : Taken sink collected [] collected .proceed
  | halt {collected after : σ} {report : ScanReport}
      (taken : sink collected report.token report.state = .ok (after, .halt)) :
      Taken sink collected [report] after .halt
  | cons {collected next after : σ} {flow : Flow} {report : ScanReport} {rest : List ScanReport}
      (taken : sink collected report.token report.state = .ok (next, .proceed))
      (others : Taken sink next rest after flow) : Taken sink collected (report :: rest) after flow

theorem Taken.append {sink : Sink σ} {collected middle after : σ} {flow : Flow}
    {reports others : List ScanReport} (first : Taken sink collected reports middle .proceed)
    (second : Taken sink middle others after flow) :
    Taken sink collected (reports ++ others) after flow := by
  generalize proceeds : Flow.proceed = before at first
  induction first with
  | nil => exact second
  | halt => cases proceeds
  | cons taken _ ih => exact .cons taken (ih second proceeds)

/-- What a sink keeps with each report is true after all of them. -/
theorem Taken.keeps {sink : Sink σ} {invariant : σ → Prop} {collected after : σ} {flow : Flow}
    {reports : List ScanReport} (taken : Taken sink collected reports after flow)
    (keeps : ∀ report ∈ reports, ∀ (gathered next : σ) (flow : Flow), invariant gathered →
      sink gathered report.token report.state = .ok (next, flow) → invariant next)
    (holds : invariant collected) : invariant after := by
  induction taken with
  | nil => exact holds
  | halt took => exact keeps _ List.mem_cons_self _ _ _ holds took
  | cons took _ ih =>
    refine ih (fun report member => keeps report (List.mem_cons_of_mem _ member)) ?_
    exact keeps _ List.mem_cons_self _ _ _ holds took

end ScanReport

namespace Scanner

variable {scanner : Scanner} {sink : Sink σ} {window : Window} {state : ScanState} {collected : σ}
  {after : Progress σ} {limit : Nat} {text : Text}

/-- What a move hands to the sink is its report, if it has one. -/
theorem deliver_taken {move : Move} (handed : deliver sink collected move = .ok after) :
    ScanReport.Taken sink collected (Move.reports [move]) after.collected after.flow := by
  unfold deliver at handed
  unfold Move.reports
  rw [List.filterMap_cons, List.filterMap_nil]
  cases delivered : move.token with
  | none =>
    rw [delivered] at handed
    cases handed
    exact .nil
  | some token =>
    rw [delivered] at handed
    obtain ⟨⟨next, flow⟩, taken, done⟩ := Fault.bind_eq_ok.mp handed
    cases done
    cases flow with
    | halt => exact .halt taken
    | proceed => exact .cons taken .nil

theorem reports_append (moves others : List Move) :
    Move.reports (moves ++ others) = Move.reports moves ++ Move.reports others :=
  List.filterMap_append

theorem Steps.taken {moves : List Move} (steps : Steps scanner sink window state collected moves after) :
    ScanReport.Taken sink collected (Move.reports moves) after.collected after.flow := by
  cases steps with
  | none _ _ handed => exact deliver_taken handed
  | here _ _ _ handed => exact deliver_taken handed
  | halted _ _ _ handed _ => exact deliver_taken handed
  | @ahead _ before move _ _ _ _ _ handed proceeds _ handedToo =>
    have first := deliver_taken handed
    rw [proceeds] at first
    rw [show [before, move] = [before] ++ [move] from rfl, reports_append]
    exact first.append (deliver_taken handedToo)

theorem Searched.taken {steps : List (List Move)}
    (searched : Searched scanner sink window limit state collected steps after) :
    ScanReport.Taken sink collected (Move.reports steps.flatten) after.collected after.flow := by
  induction searched with
  | ended => exact .nil
  | last _ steps _ =>
    rw [List.flatten_singleton]
    exact steps.taken
  | step _ steps proceeds _ _ _ ih =>
    have first := steps.taken
    rw [proceeds] at first
    rw [List.flatten_cons, reports_append]
    exact first.append ih

/-- **What a scan hands to the sink are the reports of its moves.** -/
theorem Scanned.taken {steps : List (List Move)}
    (scanned : Scanned scanner text sink limit state collected steps after) :
    ScanReport.Taken sink collected (Move.reports steps.flatten) after.collected after.flow := by
  induction scanned with
  | ended => exact .nil
  | halted _ _ _ searched _ => exact searched.taken
  | window _ _ _ searched proceeds _ _ ih =>
    have first := searched.taken
    rw [proceeds] at first
    rw [List.flatten_append, reports_append]
    exact first.append ih

/-- What a sink keeps whatever it is handed is true after a scan. -/
theorem run_invariant {motive : σ → Prop}
    (keeps : ∀ {gathered token state next flow}, motive gathered →
      sink gathered token state = .ok (next, flow) → motive next)
    (holds : motive collected) {gathered : σ} {final : ScanState} {ending : ScanEnd}
    (went : scanner.run text sink limit state collected = .ok (gathered, final, ending)) :
    motive gathered := by
  unfold run at went
  obtain ⟨⟨outcome, stop, flow⟩, scans, done⟩ := Fault.bind_eq_ok.mp went
  cases done
  obtain ⟨steps, scanned⟩ := scanTo_eq_ok_iff.mp scans
  exact scanned.taken.keeps (fun _ _ _ _ _ holds taken => keeps holds taken) holds

end Scanner

/-! ### Where the moves are made -/

namespace Grammar

/-- Moves each of which is made in the state that the one before led to. -/
inductive Course (made : ScanState → Move → Prop) :
    ScanState → List Move → ScanState → Prop where
  | nil {state : ScanState} : Course made state [] state
  | cons {state final : ScanState} {move : Move} {rest : List Move} (isMade : made state move)
      (course : Course made move.state rest final) : Course made state (move :: rest) final

theorem Course.append {made : ScanState → Move → Prop} {state middle final : ScanState}
    {moves others : List Move} (first : Course made state moves middle)
    (second : Course made middle others final) : Course made state (moves ++ others) final := by
  induction first with
  | nil => exact second
  | cons isMade _ ih => exact .cons isMade (ih second)

theorem Course.mono {made other : ScanState → Move → Prop} {state final : ScanState}
    {moves : List Move} (course : Course made state moves final)
    (implies : ∀ state move, made state move → other state move) : Course other state moves final := by
  induction course with
  | nil => exact .nil
  | cons isMade _ ih => exact .cons (implies _ _ isMade) ih

/-- Whatever moves a scan makes, it gets to a good state that is no further back. -/
theorem Makes.course {grammar : Grammar} {text : Text} {made : ScanState → Move → Prop}
    (makes : grammar.Makes text made) {state final : ScanState} {moves : List Move}
    (good : state.Good grammar text) (course : Course made state moves final) :
    final.Good grammar text ∧ state.position ≤ final.position := by
  induction course with
  | nil => exact ⟨good, le_rfl⟩
  | cons isMade _ ih =>
    have stride := makes.stride isMade
    obtain ⟨goodFinal, further⟩ := ih stride.good
    exact ⟨goodFinal, stride.le.trans further⟩

end Grammar

namespace Scanner

variable {scanner : Scanner} {sink : Sink σ} {window : Window} {state : ScanState} {collected : σ}
  {after : Progress σ} {limit : Nat} {text : Text} {made : ScanState → Move → Prop}

section Courses

variable (makes : scanner.grammar.Makes text made) (good : state.Good scanner.grammar text)
include makes good

/-- The moves of a step are those that are always made. -/
theorem Steps.course {moves : List Move}
    (searches : scanner.grammar.Searches text window state.position)
    (steps : Steps scanner sink window state collected moves after) :
    Grammar.Course made state moves after.state ∧ moves ≠ [] := by
  obtain ⟨choice, found, approaches⟩ := makes.approaches good searches
  have single : ∀ {move : Move}, made state move → deliver sink collected move = .ok after →
      Grammar.Course made state [move] after.state ∧ [move] ≠ [] := by
    intro move isMade handed
    rw [deliver_state handed]
    exact ⟨.cons isMade .nil, List.cons_ne_nil _ _⟩
  cases steps with
  | none chosenToo moved handed =>
    cases found.symm.trans chosenToo
    cases approaches with
    | none movedToo isMade =>
      cases moved.symm.trans movedToo
      exact single isMade handed
  | here chosenToo start moved handed =>
    cases found.symm.trans chosenToo
    cases approaches with
    | here _ movedToo isMade =>
      cases moved.symm.trans movedToo
      exact single isMade handed
    | ahead ahead => exact absurd ahead start
  | halted chosenToo start moved handed halts =>
    cases found.symm.trans chosenToo
    cases approaches with
    | here reached => exact absurd reached start.ne'
    | ahead _ movedToo isMade =>
      cases moved.symm.trans movedToo
      exact single isMade handed
  | ahead chosenToo start moved handed proceeds movedOver handedToo =>
    cases found.symm.trans chosenToo
    cases approaches with
    | here reached => exact absurd reached start.ne'
    | ahead _ movedToo isMade _ movedOverToo isMadeToo =>
      cases moved.symm.trans movedToo
      rw [deliver_state handed] at movedOver
      cases movedOver.symm.trans movedOverToo
      rw [deliver_state handedToo]
      exact ⟨.cons isMade (.cons isMadeToo .nil), List.cons_ne_nil _ _⟩

/-- The moves in a window are those that are always made, and no step is without one. -/
theorem Searched.course {steps : List (List Move)}
    (searches : state.position < window.searchEnd →
      scanner.grammar.Searches text window state.position)
    (searched : Searched scanner sink window limit state collected steps after) :
    Grammar.Course made state steps.flatten after.state ∧ ∀ moves ∈ steps, moves ≠ [] := by
  induction searched with
  | ended => exact ⟨.nil, fun _ member => nomatch member⟩
  | last inside steps _ =>
    obtain ⟨course, some⟩ := steps.course makes good (searches inside)
    rw [List.flatten_singleton]
    exact ⟨course, fun moves member => List.mem_singleton.mp member ▸ some⟩
  | step inside steps _ _ _ _ ih =>
    obtain ⟨course, some⟩ := steps.course makes good (searches inside)
    obtain ⟨goodNext, further⟩ := makes.course good course
    obtain ⟨others, all⟩ := ih goodNext fun insideToo =>
      (searches inside).later further insideToo goodNext.boundary
    rw [List.flatten_cons]
    exact ⟨course.append others, List.forall_mem_cons.mpr ⟨some, all⟩⟩

/-- **The moves of a scan are those that are always made**, and no step is without one. -/
theorem Scanned.course {steps : List (List Move)} (held : text.Held) (positive : 0 < scanner.unit)
    (within : limit ≤ text.size)
    (scanned : Scanned scanner text sink limit state collected steps after) :
    Grammar.Course made state steps.flatten after.state ∧ ∀ moves ∈ steps, moves ≠ [] := by
  have searching : ∀ {state : ScanState} {stop : Nat} {window : Window},
      state.Good scanner.grammar text → state.position < limit →
      checkedAdd state.position scanner.unit = .ok stop →
      Window.around text state.position (text.ceil stop) scanner.grammar.maxExtend = .ok window →
      state.position < window.searchEnd → scanner.grammar.Searches text window state.position := by
    intro state stop window good before added around _
    obtain ⟨other, aroundToo, -, searches⟩ :=
      scanner.grammar.exists_searches held good.boundary (before.trans_le within) positive
    obtain ⟨-, rfl⟩ := checkedAdd_eq_ok_iff.mp added
    cases around.symm.trans aroundToo
    exact searches
  induction scanned with
  | ended => exact ⟨.nil, fun _ member => nomatch member⟩
  | halted before added around searched _ =>
    exact searched.course makes good (searching good before added around)
  | window before added around searched _ _ _ ih =>
    obtain ⟨course, some⟩ := searched.course makes good (searching good before added around)
    obtain ⟨goodNext, -⟩ := makes.course good course
    obtain ⟨others, all⟩ := ih goodNext
    rw [List.flatten_append]
    exact ⟨course.append others, List.forall_mem_append.mpr ⟨some, all⟩⟩

end Courses

/-- A scan that its sink does not stop goes on until the limit. -/
theorem Scanned.reaches {steps : List (List Move)}
    (scanned : Scanned scanner text sink limit state collected steps after)
    (proceeds : after.flow = .proceed) : limit ≤ after.state.position := by
  induction scanned with
  | ended reached => exact not_lt.mp reached
  | halted _ _ _ _ halts => cases halts.symm.trans proceeds
  | window _ _ _ _ _ _ _ ih => exact ih proceeds

/-- A scan that went well has made moves that are always made. -/
theorem run_scanned (makes : scanner.grammar.Makes text made) (held : text.Held)
    (positive : 0 < scanner.unit) (good : state.Good scanner.grammar text) {final : ScanState}
    {ending : ScanEnd} {after : σ}
    (went : scanner.run text sink limit state collected = .ok (after, final, ending)) :
    ∃ steps flow,
      Scanned scanner text sink (min limit text.size) state collected steps ⟨after, final, flow⟩ ∧
        Grammar.Course made state steps.flatten final ∧ (∀ moves ∈ steps, moves ≠ []) ∧
        (ending = .endOfText ↔ flow = .proceed ∧ text.size ≤ final.position) := by
  unfold run at went
  obtain ⟨⟨gathered, stop, flow⟩, scans, done⟩ := Fault.bind_eq_ok.mp went
  cases done
  obtain ⟨steps, scanned⟩ := scanTo_eq_ok_iff.mp scans
  obtain ⟨course, some⟩ := scanned.course makes good held positive (min_le_right _ _)
  refine ⟨steps, flow, scanned, course, some, ?_⟩
  cases flow with
  | halt => simp
  | proceed =>
    simp only [true_and]
    split <;> simp_all

/-- A scan that keeps all reports goes well. -/
theorem exists_run_reports (makes : scanner.grammar.Makes text made) (held : text.Held)
    (positive : 0 < scanner.unit) (good : state.Good scanner.grammar text)
    (fits : state.position < min limit text.size → state.position + scanner.unit ≤ maxSize) :
    ∃ reports final ending,
      scanner.run text ScanReport.sink limit state [] = .ok (reports, final, ending) := by
  have keeps : ScanReport.sink.Keeps scanner.grammar text made (fun _ _ => True) fun _ _ => True :=
    ⟨fun _ _ _ _ => trivial, fun {_ _ _ _ _ flow} _ _ _ _ _ => by cases flow <;> trivial⟩
  have ends : ScanReport.sink.Ends False (Reached scanner.grammar text (fun _ _ => True)
      (fun _ _ => True) fun after => min limit text.size ≤ after.position)
        (scanner.scanTo text ScanReport.sink (min limit text.size) state []) :=
    scanner.scanTo_ends makes held keeps (fun before => Or.inl (fits before)) positive
      (min_le_right _ _) good trivial
  obtain ⟨progress, scans, -⟩ := ends.exists_ok id fun reports token state => ⟨_, rfl⟩
  unfold run
  rw [scans]
  exact ⟨_, _, _, rfl⟩

/-- **A scan makes moves that are always made**, unless its sink fails at what would be reported. -/
theorem run_traced (makes : scanner.grammar.Makes text made) (held : text.Held)
    (positive : 0 < scanner.unit) (good : state.Good scanner.grammar text)
    (fits : state.position < min limit text.size → state.position + scanner.unit ≤ maxSize)
    (sink : Sink σ) (collected : σ) :
    ∃ reports whole done,
      scanner.run text ScanReport.sink limit state [] = .ok (reports, whole, done) ∧
        Fault.Ends (fun fault => ScanReport.feed sink reports collected = .error fault)
          (fun (after, final, ending) => ∃ steps flow,
            Scanned scanner text sink (min limit text.size) state collected steps
                ⟨after, final, flow⟩ ∧
              Grammar.Course made state steps.flatten final ∧ (∀ moves ∈ steps, moves ≠ []) ∧
              (ending = .endOfText ↔ flow = .proceed ∧ text.size ≤ final.position))
          (scanner.run text sink limit state collected) := by
  obtain ⟨reports, whole, done, ran⟩ := exists_run_reports makes held positive good fits
  refine ⟨reports, whole, done, ran, ?_⟩
  have fed := scanner.run_feed sink text limit state ran collected
  cases went : scanner.run text sink limit state collected with
  | ok outcome => exact run_scanned makes held positive good went
  | error fault =>
    rw [went] at fed
    cases outcome : ScanReport.feed sink reports collected with
    | error other =>
      rw [outcome] at fed
      cases fed
      rfl
    | ok value =>
      rw [outcome] at fed
      cases fed

end Scanner

end Highlight
