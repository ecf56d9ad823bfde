/-
**A scan can be taken up wherever it says so.**

Behind every token a scan reports its state, and inside of text that no pattern matches it offers every
place between two characters:

* `Grammar.reports`: what the scan of a whole text reports;
* `ScanReport.Offers`: the states that a report offers, which need not know where a match of no bytes
  was used;
* `Grammar.resumes_iff`: **from every state that is offered the rest of the styles can be had**, whatever
  the number of bytes that are searched at a time, just if the first window ends at a size.
-/

import Highlight.Proofs.Scan.Highlight

namespace Highlight

variable {grammar : Grammar} {text : Text}

/-! ### Reports -/

/-- What a scan reports: a token, and its state behind it. -/
structure ScanReport where
  token : Token
  state : ScanState
  deriving DecidableEq

namespace ScanReport

/-- The sink that keeps all reports. -/
def sink : Sink (List ScanReport) := fun reports token state =>
  .ok (reports ++ [⟨token, state⟩], .proceed)

/-- The states that a report offers to take the scan up from. -/
inductive Offers (text : Text) (report : ScanReport) : ScanState → Prop where
  /-- The state of the scan as it is. -/
  | retained : Offers text report report.state
  /-- The state of a scan that begins where the scan is, inside of the same regions. -/
  | fresh : Offers text report (.startingAt report.state.position report.state.stack)
  /-- The state of a scan that begins inside of a token where no pattern matches. -/
  | inside {place : Nat} (plain : report.token.plain = true)
      (boundary : text.isBoundary place = true) (behind : report.token.start < place)
      (before : place < report.state.position) :
      Offers text report (.startingAt place report.state.stack)

/-- The machine gets to every state that a report offers. -/
def Sound (grammar : Grammar) (text : Text) (report : ScanReport) : Prop :=
  ∀ state, report.Offers text state →
    state.Good grammar text ∧ ∃ styles, grammar.Walk text .initial styles state.spot

/-- What is reported of a walk is sound. -/
theorem sound_of_leg {state : ScanState} {move : Move} {token : Token} {styles : List StyleId}
    (walk : grammar.Walk text .initial styles state.spot) (leg : grammar.Leg text state move)
    (delivered : move.token = some token) : Sound grammar text ⟨token, move.state⟩ := by
  have starts := (leg.token token delivered).2.1
  intro other offers
  cases offers with
  | retained => exact ⟨leg.good, _, walk.trans leg.walk⟩
  | fresh =>
    rw [ScanState.spot_startingAt, ← leg.spot_eq delivered]
    exact ⟨ScanState.good_startingAt leg.good.boundary leg.good.known, _, walk.trans leg.walk⟩
  | inside plain boundary behind before =>
    simp only at plain behind before
    rw [starts] at behind
    have lands := leg.inside token delivered plain _ boundary behind before.le
    obtain ⟨rest, further⟩ := lands.walk
    rw [(leg.plain token delivered plain).2]
    have known := leg.good.known
    rw [(leg.plain token delivered plain).2] at known
    exact ⟨ScanState.good_startingAt boundary known, _, walk.trans further⟩

/-- Every report of a scan is sound. -/
theorem sink_keeps : ScanReport.sink.Keeps grammar text (grammar.Leg text)
    (fun reports state => (∃ styles, grammar.Walk text .initial styles state.spot) ∧
      ∀ report ∈ reports, report.Sound grammar text) fun _ _ => False := by
  constructor
  · rintro reports state move good ⟨⟨styles, walk⟩, sound⟩ leg -
    exact ⟨⟨_, walk.trans leg.walk⟩, sound⟩
  · rintro reports state move token after flow good ⟨⟨styles, walk⟩, sound⟩ leg delivered taken
    cases taken
    refine ⟨⟨_, walk.trans leg.walk⟩, fun report member => ?_⟩
    rcases List.mem_append.mp member with earlier | last
    · exact sound report earlier
    · rw [List.mem_singleton.mp last]
      exact sound_of_leg walk leg delivered

end ScanReport

namespace Grammar

/-- What the scan of a whole text reports, which searches `unit` bytes at a time. -/
def reports (grammar : Grammar) (text : Text) (unit : Nat) : Except Fault (List ScanReport) := do
  let (reports, _, _) ← (Scanner.ofUnit grammar unit).run text ScanReport.sink text.size .initial []
  return reports

/-- The scan of a whole text goes well, and all that it reports is sound. -/
theorem reports_spec (wellFormed : grammar.WellFormed) (isLocal : grammar.Local) (held : text.Held)
    {unit : Nat} (small : unit ≤ maxSize) :
    ∃ reports, grammar.reports text unit = .ok reports ∧
      ∀ report ∈ reports, report.Sound grammar text := by
  have positive := Scanner.unit_pos grammar unit
  have fits : (Scanner.ofUnit grammar unit).unit ≤ maxSize := by
    show max unit 1 ≤ maxSize
    exact max_le small (by decide)
  have good : ScanState.initial.Good grammar text :=
    ScanState.good_startingAt (Text.isBoundary_zero text) (PatternStack.known_root grammar)
  have first : ScanState.initial.position < text.size →
      ScanState.initial.position + (Scanner.ofUnit grammar unit).unit ≤ maxSize ∨ False :=
    fun _ => Or.inl ((Nat.zero_add _).trans_le fits)
  have begun : (∃ styles, grammar.Walk text .initial styles ScanState.initial.spot) ∧
      ∀ report ∈ ([] : List ScanReport), report.Sound grammar text :=
    ⟨⟨[], .refl _⟩, fun _ member => nomatch member⟩
  have ends := (Scanner.ofUnit grammar unit).run_ends (makes_leg wellFormed isLocal held) held
    ScanReport.sink_keeps text.size first positive good begun
  obtain ⟨⟨reports, final, ending⟩, went, -, ⟨⟨-, sound⟩, -⟩ | ⟨never, -⟩⟩ :=
    ends.exists_ok id fun reports token state => ⟨_, rfl⟩
  · refine ⟨reports, ?_, sound⟩
    unfold Grammar.reports
    rw [Fault.bind_eq_ok]
    exact ⟨_, went, rfl⟩
  · exact never.elim

/-! ### Taking a scan up -/

/-- A scan that searches `unit` bytes at a time goes from a state on to the end of the text, and finds
the styles that the text has from there on. -/
def Resumes (grammar : Grammar) (text : Text) (all : Array StyleId) (unit : Nat)
    (state : ScanState) : Prop :=
  ∃ after, (Scanner.ofUnit grammar unit).run text StyleRow.sink text.size state
    (.empty state.position) =
      .ok (⟨state.position, all.extract state.position all.size⟩, after, .endOfText)

/-- The end of the first window has to be a size. -/
theorem run_eq_overflow_of_lt {σ : Type} (sink : Sink σ) {state : ScanState} {unit limit : Nat}
    (collected : σ) (inside : state.position < min limit text.size)
    (beyond : maxSize < state.position + unit) :
    (Scanner.ofUnit grammar unit).run text sink limit state collected = .error .overflow := by
  have exceeds : ¬ state.position + (Scanner.ofUnit grammar unit).unit ≤ maxSize := by
    show ¬ state.position + max unit 1 ≤ maxSize
    omega
  have stops : (Scanner.ofUnit grammar unit).scanTo text sink (min limit text.size) state
      collected = .error .overflow := by
    rw [Scanner.scanTo, if_pos inside, checkedAdd_eq_overflow exceeds]
    rfl
  unfold Scanner.run
  rw [stops]
  rfl

theorem run_eq_overflow {σ : Type} (sink : Sink σ) {state : ScanState} {unit : Nat} (collected : σ)
    (inside : state.position < text.size) (beyond : maxSize < state.position + unit) :
    (Scanner.ofUnit grammar unit).run text sink text.size state collected = .error .overflow :=
  run_eq_overflow_of_lt sink collected (by rwa [min_self]) beyond

/-- **A scan can be taken up from every state that another one offers**, and finds the same styles as
that one, just if nothing is left to scan or the first window ends at a size. -/
theorem resumes_iff (wellFormed : grammar.WellFormed) (isLocal : grammar.Local) (held : text.Held)
    {unit : Nat} (small : unit ≤ maxSize) (other : Nat) :
    ∃ reports all, grammar.reports text unit = .ok reports ∧ grammar.highlight text unit = .ok all ∧
      ∀ report ∈ reports, ∀ state, report.Offers text state →
        (grammar.Resumes text all other state ↔
          state.position = text.size ∨ state.position + other ≤ maxSize) := by
  obtain ⟨reports, reported, sound⟩ := reports_spec wellFormed isLocal held small
  obtain ⟨styles, final, walk, -, ended⟩ := exists_walk_to_end wellFormed isLocal held
    (Spot.good_initial grammar text)
  have highlighted := highlight_of_walk_of_le wellFormed isLocal held walk ended small
  refine ⟨reports, styles.toArray, reported, highlighted, fun report member state offers => ?_⟩
  obtain ⟨good, front, walkTo⟩ := sound report member state offers
  obtain ⟨all, went, resumes⟩ := resume_of_walk wellFormed isLocal held good walkTo
  cases highlighted.symm.trans (went unit small)
  constructor
  · rintro ⟨after, ran⟩
    by_contra beyond
    rw [not_or, not_le] at beyond
    have inside := good.position_le.lt_of_ne beyond.1
    rw [run_eq_overflow _ _ inside beyond.2] at ran
    cases ran
  · intro fits
    exact resumes other fun inside => fits.resolve_left inside.ne

theorem resumes_brackets :
    brackets.WellFormed ∧ brackets.Local ∧ (Text.ofString "a(b)").Held ∧
      ∃ reports all, brackets.reports (.ofString "a(b)") maxSize = .ok reports ∧
        brackets.highlight (.ofString "a(b)") maxSize = .ok all ∧
        (∃ report ∈ reports, report.Offers (.ofString "a(b)") (.startingAt 1 .root)) ∧
        brackets.Resumes (.ofString "a(b)") all 2 (.startingAt 1 .root) ∧
        ¬ brackets.Resumes (.ofString "a(b)") all maxSize (.startingAt 1 .root) := by
  obtain ⟨reports, all, reported, highlighted, shorter⟩ :=
    resumes_iff wellFormed_brackets isLocal_brackets Text.held_brackets (le_refl maxSize) 2
  obtain ⟨reportsToo, allToo, reportedToo, highlightedToo, longest⟩ :=
    resumes_iff wellFormed_brackets isLocal_brackets Text.held_brackets (le_refl maxSize) maxSize
  cases reported.symm.trans reportedToo
  cases highlighted.symm.trans highlightedToo
  have first : (do
      let reports ← brackets.reports (.ofString "a(b)") maxSize
      return reports.head?.map ScanReport.state) =
        (.ok (some (.startingAt 1 .root)) : Except Fault (Option ScanState)) := by decide +kernel
  rw [reported] at first
  obtain ⟨report, atHead, state_eq⟩ := Option.map_eq_some_iff.mp (Except.ok.inj first)
  have member := List.mem_of_mem_head? atHead
  have offers : report.Offers (.ofString "a(b)") (.startingAt 1 .root) := state_eq ▸ .retained
  refine ⟨wellFormed_brackets, isLocal_brackets, Text.held_brackets, reports, all, reported,
    highlighted, ⟨report, member, offers⟩, ?_, ?_⟩
  · exact (shorter report member _ offers).mpr (Or.inr (by decide))
  · rw [longest report member _ offers]
    decide

end Grammar

end Highlight
