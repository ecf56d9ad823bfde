/-
**A scan hands its sink what the scan of the rest of the text reports.**

What a scan does does not depend on its sink, but for when it ends. So whatever any sink makes of a text can
be had from the reports of the scan that keeps them all:

* `ScanReport.feed`: hands reports to a sink until it calls a halt;
* `Scanner.run_feed`: **a scan with any sink is the scan that keeps all reports, and these handed to the
  sink**;
* `ScanReport.Follow`: reports whose tokens follow each other without a gap;
* `Scanner.run_reports`: those of a scan do, up to the end of the text.
-/

import Highlight.Proofs.Scan.Beside
import Highlight.Proofs.Scan.Resume

namespace Highlight

variable {σ : Type}

namespace ScanReport

/-- Hands reports to a sink until it calls a halt, and tells the report where it did. -/
def feed (sink : Sink σ) : List ScanReport → σ → Except Fault (σ × Option ScanReport)
  | [], collected => .ok (collected, none)
  | report :: rest, collected => do
    let (after, flow) ← sink collected report.token report.state
    match flow with
    | .halt => return (after, some report)
    | .proceed => feed sink rest after

/-- Reports can be handed to a sink that never fails. -/
theorem feed_ne_error {sink : Sink σ}
    (total : ∀ collected token state, ∃ taken, sink collected token state = .ok taken)
    (reports : List ScanReport) (collected : σ) (fault : Fault) :
    feed sink reports collected ≠ .error fault := by
  induction reports generalizing collected with
  | nil => exact fun failed => nomatch failed
  | cons report rest ih =>
    obtain ⟨⟨after, flow⟩, taken⟩ := total collected report.token report.state
    rw [feed, taken, Fault.ok_bind]
    cases flow with
    | halt => exact fun failed => nomatch failed
    | proceed => exact ih after

theorem feed_append (sink : Sink σ) (reports others : List ScanReport) (collected : σ) :
    feed sink (reports ++ others) collected = feed sink reports collected >>= fun
      | (after, some report) => .ok (after, some report)
      | (after, none) => feed sink others after := by
  induction reports generalizing collected with
  | nil => rfl
  | cons report rest ih =>
    rw [List.cons_append, feed, feed]
    cases sink collected report.token report.state with
    | error fault => rfl
    | ok outcome =>
      obtain ⟨after, flow⟩ := outcome
      cases flow with
      | halt => rfl
      | proceed => exact ih after

/-- Where a scan has got to when its sink has been handed reports: on with the one that keeps them, or at
the report where the sink called a halt. -/
def progress (state : ScanState) : σ × Option ScanReport → Progress σ
  | (after, none) => ⟨after, state, .proceed⟩
  | (after, some report) => ⟨after, report.state, .halt⟩

/-- A part of a scan that keeps all reports, behind those it kept before, and the same part with a sink that
has been handed these. -/
def Feeds (sink : Sink σ) (before : List ScanReport) (collected : σ)
    (keeping : Except Fault (Progress (List ScanReport))) (handing : Except Fault (Progress σ)) : Prop :=
  ∀ kept, keeping = .ok kept → kept.flow = .proceed ∧ ∃ reports, kept.collected = before ++ reports ∧
    handing = (feed sink reports collected).map (progress kept.state)

theorem Feeds.bind {sink : Sink σ} {before : List ScanReport} {collected : σ}
    {keeping : Except Fault (Progress (List ScanReport))} {handing : Except Fault (Progress σ)}
    (feeds : Feeds sink before collected keeping handing)
    {second : Progress (List ScanReport) → Except Fault (Progress (List ScanReport))}
    {third : Progress σ → Except Fault (Progress σ)}
    (halts : ∀ after state, third ⟨after, state, .halt⟩ = .ok ⟨after, state, .halt⟩)
    (rest : ∀ all after state, keeping = .ok ⟨all, state, .proceed⟩ →
      Feeds sink all after (second ⟨all, state, .proceed⟩) (third ⟨after, state, .proceed⟩)) :
    Feeds sink before collected (keeping >>= second) (handing >>= third) := by
  intro final went
  obtain ⟨⟨all, state, flow⟩, wentFirst, wentSecond⟩ := Fault.bind_eq_ok.mp went
  obtain ⟨proceeds, reports, keptAll, handed⟩ := feeds _ wentFirst
  simp only at proceeds keptAll handed
  subst proceeds keptAll
  have next := fun after => rest _ after state wentFirst final wentSecond
  obtain ⟨proceedsToo, others, keptMore, -⟩ := next collected
  refine ⟨proceedsToo, reports ++ others, by rw [keptMore, List.append_assoc], ?_⟩
  rw [handed, feed_append]
  cases fed : feed sink reports collected with
  | error fault => rfl
  | ok outcome =>
    obtain ⟨after, halted⟩ := outcome
    cases halted with
    | some report => exact halts after report.state
    | none =>
      obtain ⟨-, othersToo, keptToo, handedToo⟩ := next after
      cases List.append_cancel_left (keptMore.symm.trans keptToo)
      exact handedToo

/-- Whatever a scan that keeps all reports does, the scan with any sink makes of these reports. -/
theorem beside_sink (sink : Sink σ) (grammar : Grammar) :
    ScanReport.sink.Beside grammar (fun _ => True) sink (Feeds sink) where
  leads _ _ _ _ := trivial
  rest := by
    rintro before collected state - kept went
    cases went
    exact ⟨rfl, [], (List.append_nil before).symm, rfl⟩
  stuck _ _ _ _ went := nomatch went
  token := by
    rintro before collected token state - kept went
    cases went
    refine ⟨rfl, [⟨token, state⟩], rfl, ?_⟩
    simp only [Scanner.deliver, feed]
    cases sink collected token state with
    | error fault => rfl
    | ok outcome =>
      obtain ⟨after, flow⟩ := outcome
      cases flow <;> rfl
  bind feeds _ halts rest := feeds.bind halts fun all after state went => rest all after state went trivial

end ScanReport

/-- **A scan with any sink is the scan that keeps all reports, and these handed to the sink** until it
calls a halt. -/
theorem Scanner.run_feed (scanner : Scanner) (sink : Sink σ) (text : Text) (limit : Nat)
    (state : ScanState) {reports : List ScanReport} {final : ScanState} {ending : ScanEnd}
    (ran : scanner.run text ScanReport.sink limit state [] = .ok (reports, final, ending))
    (collected : σ) :
    scanner.run text sink limit state collected =
      (ScanReport.feed sink reports collected).map fun
        | (after, none) => (after, final, ending)
        | (after, some report) => (after, report.state, .stopped) := by
  unfold run at ran ⊢
  obtain ⟨⟨all, stop, flow⟩, went, ran⟩ := Fault.bind_eq_ok.mp ran
  obtain ⟨proceeds, others, kept, handed⟩ :=
    (ScanReport.beside_sink sink scanner.grammar).scanTo trivial text _ [] collected _ went
  simp only [List.nil_append] at proceeds kept handed
  subst proceeds kept
  cases ran
  rw [handed]
  simp only
  cases ScanReport.feed sink all collected with
  | error fault => rfl
  | ok outcome =>
    obtain ⟨after, halted⟩ := outcome
    cases halted <;> rfl

/-! ### Reports without gaps -/

namespace ScanReport

/-- The tokens of reports cover the bytes `[start, stop)`: each begins where the scan was behind the one
before, and none is empty. -/
def Follow : (start : Nat) → List ScanReport → (stop : Nat) → Prop
  | start, [], stop => start = stop
  | start, report :: rest, stop => report.token.start = start ∧ start < report.state.position ∧
      Follow report.state.position rest stop

theorem Follow.concat {start middle : Nat} {reports : List ScanReport} {report : ScanReport}
    (follow : Follow start reports middle) (begins : report.token.start = middle)
    (further : middle < report.state.position) :
    Follow start (reports ++ [report]) report.state.position := by
  induction reports generalizing start with
  | nil =>
    cases follow
    exact ⟨begins, further, rfl⟩
  | cons other rest ih => exact ⟨follow.1, follow.2.1, ih follow.2.2⟩

/-- Reports are no longer than the bytes they cover. -/
theorem Follow.le {start stop : Nat} {reports : List ScanReport} (follow : Follow start reports stop) :
    start ≤ stop := by
  induction reports generalizing start with
  | nil => exact le_of_eq follow
  | cons report rest ih => exact follow.2.1.le.trans (ih follow.2.2)

/-- The token of every report is between the start and the stop, and not empty. -/
theorem Follow.between {start stop : Nat} {reports : List ScanReport}
    (follow : Follow start reports stop) {report : ScanReport} (member : report ∈ reports) :
    start ≤ report.token.start ∧ report.token.start < report.state.position ∧
      report.state.position ≤ stop := by
  induction reports generalizing start with
  | nil => cases member
  | cons other rest ih =>
    obtain ⟨begins, further, follow⟩ := follow
    rcases List.mem_cons.mp member with rfl | later
    · exact ⟨begins.ge, begins.trans_lt further, follow.le⟩
    · have := ih follow later
      omega

end ScanReport

/-- **The reports of a scan follow each other up to the end of the text.** -/
theorem Scanner.run_reports (scanner : Scanner) {text : Text} {made : ScanState → Move → Prop}
    (makes : scanner.grammar.Makes text made) (held : text.Held) {state : ScanState}
    (fits : state.position < text.size → state.position + scanner.unit ≤ maxSize)
    (positive : 0 < scanner.unit) (good : state.Good scanner.grammar text) :
    ∃ reports final, scanner.run text ScanReport.sink text.size state [] =
        .ok (reports, final, .endOfText) ∧ final.position = text.size ∧
      ScanReport.Follow state.position reports text.size := by
  have keeps : ScanReport.sink.Keeps scanner.grammar text made
      (fun reports after => ScanReport.Follow state.position reports after.position) fun _ _ => False := by
    constructor
    · rintro reports before move goodBefore follow isMade silent
      exact (makes.stride isMade).silent silent ▸ follow
    · rintro reports before move token after flow goodBefore follow isMade delivered taken
      cases taken
      have stride := makes.stride isMade
      exact follow.concat (stride.token token delivered).2.1 (stride.lt delivered)
  have begun : ScanReport.Follow state.position [] state.position := rfl
  have small : state.position < text.size → state.position + scanner.unit ≤ maxSize ∨ False :=
    fun inside => Or.inl (fits inside)
  have ends := scanner.run_ends makes held keeps text.size small positive good begun
  obtain ⟨⟨reports, final, ending⟩, ran, goodFinal, outcome⟩ :=
    ends.exists_ok id fun reports token state => ⟨_, rfl⟩
  obtain ⟨follow, further, ended⟩ := outcome.resolve_right fun never => never.1
  rw [min_self] at further
  have atEnd : final.position = text.size := le_antisymm goodFinal.position_le further
  cases ended.mpr further
  exact ⟨reports, final, ran, atEnd, atEnd ▸ follow⟩

end Highlight
