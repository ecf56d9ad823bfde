/-
**The tokens of a scan cut the text into pieces.**

A token comes from text that nothing matches, from a match or from a single character, and a match may
end behind what was searched. However it comes about, it begins where the one before ended, and none is
empty:

* `ScanReport.Cut`: a report of a piece of the text;
* `Grammar.Course.cuts`: the reports of a course are such, and follow each other;
* `StyleRow.stop_of_taken`: the row that is painted with them is as long as they are;
* `Grammar.run_cuts`: **a scan hands to its sink just the pieces from where it began to where it ended**,
  which is at its limit unless the sink calls a halt. So every byte of a text has one style.
-/

import Highlight.Proofs.Scan.Lawful
import Highlight.Proofs.Scan.Trace

namespace Highlight

variable {text : Text}

/-- The token of a report is a piece of the text between characters, with its captures inside, and the
scan was behind it then. -/
structure ScanReport.Cut (text : Text) (report : ScanReport) : Prop where
  sound : report.token.Sound
  starts : text.isBoundary report.token.start = true
  stops : text.isBoundary report.token.stop = true
  behind : report.state.position = report.token.stop

/-- The reports of a course are pieces of the text, from where the course begins to where it ends. -/
theorem Grammar.Course.cuts {grammar : Grammar} {state final : ScanState} {moves : List Move}
    (good : state.Good grammar text) (course : Course (grammar.Stride text) state moves final) :
    ScanReport.Follow state.position (Move.reports moves) final.position ∧
      ∀ report ∈ Move.reports moves, report.Cut text := by
  induction course with
  | nil => exact ⟨rfl, fun _ member => nomatch member⟩
  | @cons state final move rest stride _ ih =>
    obtain ⟨follow, cuts⟩ := ih stride.good
    unfold Move.reports at follow cuts ⊢
    cases delivered : move.token with
    | none =>
      rw [List.filterMap_cons, delivered]
      rw [stride.silent delivered]
      exact ⟨follow, cuts⟩
    | some token =>
      obtain ⟨sound, starts, stops, -⟩ := stride.token token delivered
      rw [List.filterMap_cons, delivered]
      refine ⟨⟨starts, stride.lt delivered, follow⟩, List.forall_mem_cons.mpr ⟨?_, cuts⟩⟩
      exact ⟨sound, starts ▸ good.boundary, stops ▸ stride.good.boundary, stops.symm⟩

/-- A row that is painted with pieces behind it ends where they do. -/
theorem StyleRow.stop_of_taken {row after : StyleRow} {reports : List ScanReport} {flow : Flow}
    {stop : Nat} (taken : ScanReport.Taken StyleRow.sink row reports after flow)
    (follow : ScanReport.Follow row.stop reports stop)
    (cuts : ∀ report ∈ reports, report.Cut text) :
    after.start = row.start ∧ after.stop = stop ∧ flow = .proceed := by
  induction taken with
  | nil => exact ⟨rfl, follow, rfl⟩
  | halt taken => cases taken
  | @cons row _ _ _ report rest taken _ ih =>
    cases taken
    obtain ⟨cut, others⟩ := List.forall_mem_cons.mp cuts
    obtain ⟨starts, -, follow⟩ := follow
    rw [cut.behind, ← row.stop_paint cut.sound starts.symm] at follow
    obtain ⟨start, ended⟩ := ih follow others
    rw [row.paint_append cut.sound starts.symm] at start
    exact ⟨start, ended⟩

namespace Scanner

/-- A scan up to a limit has handed reports to its sink, which cut the text from where it began to where
it ended, and has ended for one of the two reasons that there are. -/
structure Cuts {σ : Type} (text : Text) (sink : Sink σ) (limit : Nat) (state : ScanState)
    (collected : σ) (reports : List ScanReport) (flow : Flow) (after : σ) (final : ScanState)
    (ending : ScanEnd) : Prop where
  taken : ScanReport.Taken sink collected reports after flow
  follow : ScanReport.Follow state.position reports final.position
  cut : ∀ report ∈ reports, report.Cut text
  reaches : flow = .proceed → min limit text.size ≤ final.position
  ended : ending = .endOfText ↔ flow = .proceed ∧ final.position = text.size

variable {scanner : Scanner} {state : ScanState} (wellFormed : scanner.grammar.WellFormed)
  (lawful : scanner.grammar.Lawful) (held : text.Held) (positive : 0 < scanner.unit)
  (good : state.Good scanner.grammar text)
include wellFormed lawful held positive good

/-- A scan cuts the text into tokens from where it begins to where it ends, and hands each of them to
its sink, unless the sink fails. If the sink never calls a halt it goes on to its limit. -/
theorem run_tokens {σ : Type} (sink : Sink σ) (collected : σ) (limit : Nat)
    (fits : state.position < min limit text.size → state.position + scanner.unit ≤ maxSize) :
    ∃ all whole done,
      scanner.run text ScanReport.sink limit state [] = .ok (all, whole, done) ∧
        Fault.Ends (fun fault => ScanReport.feed sink all collected = .error fault)
          (fun (after, final, ending) => final.Good scanner.grammar text ∧
            ∃ reports flow, Cuts text sink limit state collected reports flow after final ending)
          (scanner.run text sink limit state collected) := by
  have makes := Grammar.makes_stride wellFormed lawful.bounded held
  obtain ⟨all, whole, done, ran, ends⟩ := run_traced makes held positive good fits sink collected
  refine ⟨all, whole, done, ran, ends.mono ?_⟩
  rintro ⟨after, final, ending⟩ ⟨steps, flow, scanned, course, -, ended⟩
  obtain ⟨goodFinal, -⟩ := makes.course good course
  obtain ⟨follow, cuts⟩ := (course.mono fun _ _ both => both.1).cuts good
  have atEnd : text.size ≤ final.position ↔ final.position = text.size :=
    ⟨fun reached => le_antisymm goodFinal.position_le reached, fun same => same.ge⟩
  exact ⟨goodFinal, Move.reports steps.flatten, flow, scanned.taken, follow, cuts, scanned.reaches,
    by rw [ended, atEnd]⟩

end Scanner

namespace Grammar

variable {grammar : Grammar}

/-- Every byte of a text gets one style. -/
theorem exists_highlight (wellFormed : grammar.WellFormed) (lawful : grammar.Lawful)
    (held : text.Held) {unit : Nat} (small : unit ≤ maxSize) :
    ∃ styles, grammar.highlight text unit = .ok styles ∧ styles.size = text.size := by
  have good : ScanState.initial.Good grammar text :=
    ScanState.good_startingAt (Text.isBoundary_zero text) (PatternStack.known_root grammar)
  have positive := Scanner.unit_pos grammar unit
  have fits : 0 + (Scanner.ofUnit grammar unit).unit ≤ maxSize :=
    (Nat.zero_add _).trans_le (max_le small (by decide))
  obtain ⟨all, whole, done, -, ends⟩ := Scanner.run_tokens wellFormed lawful held positive good
    StyleRow.sink (.empty 0) text.size fun _ => fits
  obtain ⟨⟨row, final, ending⟩, ran, goodFinal, reports, flow, cuts⟩ :=
    ends.exists_ok (ScanReport.feed_ne_error (fun _ _ _ => ⟨_, rfl⟩) all (StyleRow.empty 0))
  obtain ⟨start, stop, proceeds⟩ := StyleRow.stop_of_taken cuts.taken cuts.follow cuts.cut
  have reached := cuts.reaches proceeds
  have within := goodFinal.position_le
  rw [min_self] at reached
  refine ⟨row.styles, Fault.bind_eq_ok.mpr ⟨_, ran, rfl⟩, ?_⟩
  unfold StyleRow.stop at stop
  rw [start] at stop
  exact ((Nat.zero_add _).symm.trans stop).trans (le_antisymm within reached)

/-- **A scan cuts the text into tokens from where it begins to where it ends**, and hands each of them to
its sink, unless the sink fails. If the sink never calls a halt it goes on to its limit. Every byte of
a text gets one style. -/
theorem run_cuts (wellFormed : grammar.WellFormed) (lawful : grammar.Lawful) (held : text.Held) :
    (∀ {σ : Type} (sink : Sink σ) (collected : σ) (unit limit : Nat) (state : ScanState),
      state.Good grammar text →
      (state.position < min limit text.size → state.position + max unit 1 ≤ maxSize) →
      ∃ all whole done,
        (Scanner.ofUnit grammar unit).run text ScanReport.sink limit state [] =
            .ok (all, whole, done) ∧
          Fault.Ends (fun fault => ScanReport.feed sink all collected = .error fault)
            (fun (after, final, ending) => final.Good grammar text ∧ ∃ reports flow,
              Scanner.Cuts text sink limit state collected reports flow after final ending)
            ((Scanner.ofUnit grammar unit).run text sink limit state collected)) ∧
      ∀ unit ≤ maxSize, ∃ styles, grammar.highlight text unit = .ok styles ∧
        styles.size = text.size :=
  ⟨fun sink collected unit limit _ good fits =>
      Scanner.run_tokens wellFormed lawful held (Scanner.unit_pos grammar unit) good sink collected
        limit fits,
    fun _ small => exists_highlight wellFormed lawful held small⟩

/-- The brackets are tokens, and so is what is before and between them. -/
theorem run_cuts_brackets :
    brackets.WellFormed ∧ brackets.Lawful ∧ (Text.ofString "a(b)").Held ∧
      ScanState.initial.Good brackets (.ofString "a(b)") ∧
      (∃ all final handed flow,
        (Scanner.ofUnit brackets 2).run (.ofString "a(b)") ScanReport.sink 9 .initial [] =
            .ok (all, final, .endOfText) ∧
          all.map (·.token.start) = [0, 1, 2, 3] ∧
          Scanner.Cuts (.ofString "a(b)") ScanReport.sink 9 .initial [] handed flow all final
            .endOfText) ∧
      ∃ styles, brackets.highlight (.ofString "a(b)") 3 = .ok styles ∧ styles.size = 4 := by
  have good : ScanState.initial.Good brackets (.ofString "a(b)") :=
    ScanState.good_startingAt rfl (PatternStack.known_root brackets)
  obtain ⟨cuts, highlights⟩ := run_cuts wellFormed_brackets lawful_brackets Text.held_brackets
  obtain ⟨all, final, ending, ran, ends⟩ :=
    cuts ScanReport.sink [] 2 9 .initial good fun _ => by decide
  rw [ran] at ends
  obtain ⟨-, handed, flow, cut⟩ := ends
  have found : ((Scanner.ofUnit brackets 2).run (.ofString "a(b)") ScanReport.sink 9 .initial []).map
      (fun outcome => (outcome.1.map (·.token.start), outcome.2.2)) =
        .ok ([0, 1, 2, 3], .endOfText) := by decide +kernel
  rw [ran] at found
  obtain ⟨starts, rfl⟩ := Prod.mk.inj (Except.ok.inj found)
  exact ⟨wellFormed_brackets, lawful_brackets, Text.held_brackets, good,
    ⟨all, final, handed, flow, ran, starts, cut⟩, highlights 3 (by decide)⟩

end Grammar

end Highlight
