/-
**After an edit, work ends with the first old break that is met.**

The scan of a text that has been edited may come to one of the breaks that the edit took along, in the same
state. Work stops at the first such break, whatever the regexes could see from there on, so that how long an
edit takes depends on how soon this happens:

* `Highlighter.reportsFrom`: what the scan of a text from a break on would report;
* `Highlighter.Resync`: how work ends that begins at a break, with old breaks behind it;
* `Highlighter.Laid.process_resync`: a slice of work whose time is never over ends so;
* `Highlighter.Reachable.resynchronizes`: **so does the one after any edit of a text that had been processed
  to its end**.
-/

import Highlight.Proofs.Highlighter.Laid
import Highlight.Proofs.Highlighter.Meets
import Highlight.Proofs.Highlighter.Progress
import Highlight.Proofs.Highlighter.Surgery

namespace Highlight

open BreakIndex (Entry)
open ScanReport (Met)

/-- A range that holds another one with the same start takes its place. -/
theorem Span.add_add {start stop further : Nat} (ordered : start < further) (within : stop ≤ further) :
    Span.add (Span.add none ⟨start, stop⟩) ⟨start, further⟩ = some ⟨start, further⟩ := by
  have proper : (Span.mk start further).isEmpty = false := by simpa [Span.isEmpty] using ordered
  unfold Span.add
  simp only [proper, Bool.false_eq_true, if_false]
  cases (Span.mk start stop).isEmpty <;> simp [Span.hull, within]

namespace Highlighter

variable {text edited : Text} {highlighter after : Highlighter} {change : Change}
  {front behind ahead kept : List Entry} {value reached : Break}

/-- What the scan of a text from a break on reports, with as many bytes searched at a time as in a slice of
work. -/
def reportsFrom (highlighter : Highlighter) (text : Text) (value : Break) :
    Except Fault (List ScanReport) := do
  let scanner := Scanner.ofUnit highlighter.grammar (← highlighter.config.windowUnit)
  let (reports, _, _) ← scanner.run text ScanReport.sink text.size (.ofBreak value) []
  return reports

/-- How the work on a text ends that begins at the break `value`, the last of `front`, with the old breaks
`kept` behind it. -/
inductive Resync (text : Text) (highlighter : Highlighter) (front kept : List Entry) (value : Break) :
    Nat → Highlighter → Prop where
  /-- An old break is met. With the first one all that follow are kept, and nothing is scanned behind the
  token that reaches it. -/
  | met {reports : List ScanReport} {report : ScanReport} {passed made rest : List Entry}
      {id : BreakId} {found : Break} {scanned : Nat} {after : Highlighter}
      (patterned : highlighter.grammar.hasPatterns = true)
      (reported : highlighter.reportsFrom text value = .ok reports)
      (split : kept = passed ++ (id, found) :: rest)
      (unmet : ∀ entry ∈ passed, ¬ Met reports entry.2)
      (member : report ∈ reports) (meets : report.Meets found)
      (stored : ∀ entry ∈ made, Met reports entry.2)
      (breaks : after.breaks.toList = front ++ made ++ (id, found) :: rest)
      (stops : value.position + scanned = report.state.position)
      (dirty : after.dirty = some ⟨value.position, report.state.position⟩) :
      Resync text highlighter front kept value scanned after
  /-- No old break is met. The text is scanned to its end, and none is kept. -/
  | unmet {reports : List ScanReport} {made : List Entry} {scanned : Nat} {after : Highlighter}
      (patterned : highlighter.grammar.hasPatterns = true)
      (reported : highlighter.reportsFrom text value = .ok reports)
      (unmet : ∀ entry ∈ kept, ¬ Met reports entry.2)
      (stored : ∀ entry ∈ made, Met reports entry.2)
      (breaks : after.breaks.toList = front ++ made)
      (gone : ∀ entry ∈ kept, ∀ other ∈ after.breaks.toList, other.2 ≠ entry.2)
      (stops : value.position + scanned = text.size) :
      Resync text highlighter front kept value scanned after
  /-- There are no patterns, and so no old breaks. Nothing is scanned. -/
  | plain (patternless : highlighter.grammar.hasPatterns = false) (none : kept = []) :
      Resync text highlighter front kept value 0 highlighter

/-- Where none of some old breaks is met, none of them is among those that are stored. -/
theorem ne_of_unmet {reports : List ScanReport} {made : List Entry} {bound : Nat}
    (before : ∀ entry ∈ front, entry.2.position ≤ bound)
    (behind : ∀ entry ∈ kept, bound < entry.2.position)
    (unmet : ∀ entry ∈ kept, ¬ Met reports entry.2) (stored : ∀ entry ∈ made, Met reports entry.2) :
    ∀ entry ∈ kept, ∀ other ∈ front ++ made, other.2 ≠ entry.2 := by
  intro entry inKept other member same
  rcases List.mem_append.mp member with old | new
  · exact absurd (before other old) (not_le.mpr (same ▸ behind entry inKept))
  · exact unmet entry inKept (same ▸ stored other new)

namespace Laid

variable (laid : Laid text highlighter behind reached ahead)
  (spaced : 1 ≤ highlighter.config.spacing)
  (fits : FitsWork text highlighter.config reached.position)
include laid spaced fits

omit fits in
/-- The old breaks ahead are behind the frontier and in the text. -/
theorem ahead_between : ∀ entry ∈ ahead,
    reached.position < entry.2.position ∧ entry.2.position ≤ text.size := by
  intro entry member
  have := laid.placed.behind entry member
  have := laid.placed.position_le
    (List.mem_append_right behind (List.mem_cons_of_mem (highlighter.frontier, reached) member))
  omega

/-- The pass of a slice of work whose time is never over has met no old break by the end of the text, or it
has stopped at the first. -/
theorem pass_seeks : ∃ reports, highlighter.reportsFrom text reached = .ok reports ∧
    ScanReport.Follow reached.position reports text.size ∧
    ∀ {pass state ending}, (Scanner.ofUnit highlighter.grammar
          (max Config.minWindowUnit (4 * highlighter.config.spacing))).run text
        (Pass.sink ⟨text, highlighter.config.spacing, .never⟩) text.size (ScanState.ofBreak reached)
        ⟨highlighter.breaks, highlighter.frontier, none, 0, none⟩ = .ok (pass, state, ending) →
      pass.breaks.Numbered →
      (ending = .endOfText ∧ state.position = text.size ∧
          Pass.Expects (Met reports) (behind ++ [(highlighter.frontier, reached)]) ahead
            (text.size + 1) pass) ∨
        ∃ report ∈ reports, ending = .stopped ∧ state = report.state ∧
          ∃ value, report.Meets value ∧
            Pass.Found (Met reports) (behind ++ [(highlighter.frontier, reached)]) ahead value pass := by
  have good := laid.good
  have between := laid.ahead_between spaced
  obtain ⟨held, wellFormed, lawful, holds, placed⟩ := laid
  obtain ⟨reports, final, ran, atEnd, follow⟩ := (Scanner.ofUnit highlighter.grammar
    (max Config.minWindowUnit (4 * highlighter.config.spacing))).run_reports
      (Grammar.makes_stride wellFormed lawful.bounded held) held
      (fits.add_unit_le held highlighter.grammar) (Nat.le_max_right _ 1) good
  have reported : highlighter.reportsFrom text reached = .ok reports := by
    unfold reportsFrom
    simp only [Config.windowUnit_eq fits.unit, Fault.ok_bind, ran]
    rfl
  have begun : Pass.Expects (Met reports) (behind ++ [(highlighter.frontier, reached)]) ahead
      (reached.position + 1) ⟨highlighter.breaks, highlighter.frontier, none, 0, none⟩ := by
    refine ⟨rfl, rfl, [], ahead, ⟨⟨[], rfl, (fun _ member => nomatch member)⟩,
      (fun _ member => nomatch member), ?_⟩, ⟨behind, reached, List.append_nil _⟩,
      fun entry member => (between entry member).1⟩
    rw [List.append_nil, ← List.append_cons]
    exact holds
  have ordered : BreakIndex.Ordered ahead :=
    (List.pairwise_cons.mp (List.pairwise_append.mp placed.ordered).2.1).2
  refine ⟨reports, reported, follow, fun {pass state ending} went numbered => ?_⟩
  rw [Scanner.run_feed _ _ _ _ _ ran] at went
  cases fed : ScanReport.feed (Pass.sink ⟨text, highlighter.config.spacing, .never⟩) reports
    ⟨highlighter.breaks, highlighter.frontier, none, 0, none⟩ with
  | error fault =>
    rw [fed] at went
    cases went
  | ok outcome =>
    obtain ⟨last, halted⟩ := outcome
    rw [fed] at went
    have numberedLast : last.breaks.Numbered := by
      cases halted <;> (cases went; exact numbered)
    rcases begun.feed ordered rfl follow fed numberedLast with
      ⟨rfl, ended⟩ | ⟨report, member, rfl, ended⟩
    · cases went
      exact Or.inl ⟨rfl, atEnd, ended⟩
    · cases went
      exact Or.inr ⟨report, member, rfl, rfl, ended⟩

/-- **A slice of work whose time is never over ends with the first old break that is met**, or at the end
of the text. -/
theorem process_resync (room : text.size < BreakIndex.idRange ∨
      highlighter.breaks.nodes.size + text.size / highlighter.config.spacing ≤ BreakIndex.idRange)
    (few : highlighter.breaks.Numbered) (patterned : highlighter.grammar.hasPatterns = true)
    (pending : highlighter.needsProcessing = true) (unmarked : highlighter.restartEnd = none)
    {stop : Nat} (marked : highlighter.dirty = Span.add none ⟨reached.position, stop⟩)
    (clear : ∀ entry ∈ ahead, stop ≤ entry.2.position) :
    ∃ scanned after, highlighter.process text .never = .ok (scanned, after) ∧
      after.needsProcessing = false ∧
      Resync text highlighter (behind ++ [(highlighter.frontier, reached)]) ahead reached scanned
        after := by
  have stores := Config.stores_le_div spaced text .never
  obtain ⟨scanned, after, went, -⟩ := laid.process_advances spaced fits pending .never
    (room.imp (fun short => ⟨spaced, short⟩) (Nat.add_le_add_left stores _).trans)
  have numbered : after.breaks.Numbered := by
    rcases room with short | enough
    · exact laid.slots_of_process spaced short le_rfl few went
    · exact (laid.slots_of_spacing spaced enough went).trans enough
  have processed := went
  refine ⟨scanned, after, went, ?_⟩
  obtain ⟨reports, reported, follow, seeks⟩ := laid.pass_seeks spaced fits
  have between := laid.ahead_between spaced
  have before := laid.placed.up_to
  have get := laid.holds.get_eq
  clear laid
  rcases highlighter with
    ⟨grammar, config, breaks, frontier, restartEnd, lastRestart, needsProcessing, dirty⟩
  simp only at pending unmarked marked get
  subst pending unmarked marked
  unfold process at went
  simp only [not_true_eq_false, if_false, Config.windowUnit_eq fits.unit, Fault.ok_bind, get] at went
  obtain ⟨⟨pass, state, ending⟩, ran, went⟩ := Fault.bind_eq_ok.mp went
  have numberedPass := numbered_of_run rfl processed numbered (Config.windowUnit_eq fits.unit) get ran
  rcases pass with ⟨breaksLast, frontierLast, restartEnd, looks, interrupt⟩
  rcases seeks ran numberedPass with ⟨rfl, atEnd, ended⟩ | ⟨report, member, rfl, rfl, found, meets, ended⟩
  · obtain ⟨rfl, -, made, rest, ⟨⟨passed, split, unmet⟩, stored, holds⟩, ⟨front, last, listed⟩,
      further⟩ := ended
    -- No old break is behind the end of the text.
    obtain rfl : rest = [] := by
      refine List.eq_nil_iff_forall_not_mem.mpr fun entry member => ?_
      have := further entry member
      have := (between entry (split ▸ List.mem_append_right _ member)).2
      omega
    rw [List.append_nil] at split
    subst split
    simp only at listed holds went
    rw [listed, ← List.append_cons] at holds
    obtain ⟨index, cut, holdsCut⟩ := holds.truncateAfter_spec
    rw [← listed] at holdsCut
    simp only [cut, Fault.ok_bind] at went
    cases went
    refine ⟨rfl, .unmet patterned reported unmet stored holdsCut.toList_eq ?_ ?_⟩
    · show ∀ entry ∈ ahead, ∀ other ∈ index.toList, other.2 ≠ entry.2
      rw [holdsCut.toList_eq]
      exact ne_of_unmet before (fun entry member => (between entry member).1) unmet stored
    · have := follow.le
      show reached.position + (state.position - reached.position) = text.size
      omega
  · obtain ⟨rfl, made, id, rest, ⟨⟨passed, rfl, unmet⟩, stored, holds⟩⟩ := ended
    cases went
    obtain ⟨notBefore, ordered, -⟩ := follow.between member
    have reaches := (meets.between ordered).2
    have notBehind : stop ≤ found.position := clear (id, found) (by simp)
    refine ⟨rfl, .met patterned reported rfl unmet member meets stored holds.toList_eq ?_ ?_⟩
    · show reached.position + (report.state.position - reached.position) = report.state.position
      omega
    · exact Span.add_add (notBefore.trans_lt ordered) (notBehind.trans reaches)

end Laid

/-! ### Edits -/

/-- An edit where nothing is left to process goes back to the restart, and all old breaks behind it may be
relied on. -/
theorem Edited.rewound_of_idle {restart : BreakId} {rest : List Entry}
    (made : highlighter.Edited change after reached front restart value rest)
    (idle : highlighter.needsProcessing = false) (unmarked : highlighter.restartEnd = none)
    (inFront : value.position ≤ reached.position) :
    after.frontier = restart ∧ after.restartEnd = none := by
  rcases made.rewound with ⟨-, frontier, marker⟩ | ⟨further, -, -⟩
  · refine ⟨frontier, marker.trans ?_⟩
    rw [unmarked, markerAt, idle]
    rfl
  · exact absurd inFront (not_le.mpr further)

/-- After an edit where nothing was left to process, work begins at the restart, and the breaks behind it
are those that were taken along. -/
theorem Spread.taken_up {back rest : List Entry} {other : Break} {restart : BreakId}
    (spread : Spread text (fun _ => maxSize) highlighter behind reached [])
    (idle : highlighter.needsProcessing = false) (edits : Text.Edits text edited change)
    (heldEdited : edited.Held) (went : highlighter.edit change = .ok after)
    (surgery : Surgery highlighter change edited front restart value back after)
    (here : highlighter.frontierPosition = .ok other.position)
    (made : highlighter.Edited change after other front restart value rest) :
    after.frontier = restart ∧ after.restartEnd = none ∧
      Laid edited after front value (rest.map (BreakIndex.moveEntry change.delta)) ∧
      (after.grammar.hasPatterns = false → rest.map (BreakIndex.moveEntry change.delta) = []) := by
  obtain ⟨unmarked, -, -⟩ := spread.idle idle
  have inFront : value.position ≤ other.position := by
    have member : (restart, value) ∈ behind ++ [(highlighter.frontier, reached)] := by
      rw [← spread.tracks.holds.toList_eq, surgery.split]
      simp
    have notBehind := spread.laid.placed.up_to (restart, value) member
    rw [spread.frontierPosition_eq] at here
    exact Except.ok.inj here ▸ notBehind
  obtain ⟨frontier, unmarkedAfter⟩ := made.rewound_of_idle idle unmarked inFront
  obtain ⟨-, behindAfter, final, ahead, spreadAfter⟩ := spread.edit edits heldEdited went
  have same := spreadAfter.tracks.holds.toList_eq.symm.trans made.holds.toList_eq
  refine ⟨frontier, unmarkedAfter, ?_, fun patternless => ?_⟩
  · obtain ⟨held, wellFormed, lawful, holds, placed⟩ := spreadAfter.laid
    rw [same, ← frontier] at holds placed
    exact ⟨held, wellFormed, lawful, holds, placed⟩
  · obtain ⟨idleAfter, rfl⟩ := spreadAfter.plain patternless
    obtain ⟨-, rfl, -⟩ := spreadAfter.idle idleAfter
    have length := congrArg List.length same
    simp only [List.nil_append, List.length_append, List.length_cons, List.length_nil] at length
    exact List.eq_nil_of_length_eq_zero (by omega)

/-- **After an edit of a text that had been processed to its end, work ends with the first old break that
is met**, or at the end of the new text. It goes well unless a sum of sizes overflows, as long as there are
numbers for the breaks that fit in the new text. -/
theorem Reachable.resynchronizes {start stop : Nat} {inserted : String}
    (reachable : Reachable text highlighter) (idle : highlighter.needsProcessing = false)
    (clean : highlighter.dirty = none)
    (replaced : text.replace start stop inserted = .ok (edited, change))
    (small : edited.size < 2 ^ 63)
    (room : edited.size < 2 ^ 32 ∨
      highlighter.breaks.nodes.size + edited.size / highlighter.config.spacing ≤ 2 ^ 32) :
    Fault.Ends
      (fun fault => fault = .overflow ∧
        (maxSize < text.size + (highlighter.grammar.maxExtend + 1) ∨
          maxSize < edited.size + 4 * highlighter.config.spacing))
      (fun (middle, scanned, after) => after.needsProcessing = false ∧
        ∃ front restart value back kept,
          Surgery highlighter change edited front restart value back middle ∧
          middle.breaks.toList = front ++ (restart, value) :: kept ∧
          Resync edited middle (front ++ [(restart, value)]) kept value scanned after)
      (do
        let middle ← highlighter.edit change
        let (scanned, after) ← middle.process edited .never
        return (middle, scanned, after)) := by
  obtain ⟨behind, reached, ahead, spread⟩ := reachable.spread
  have edits := Text.edits_of_replace spread.held small replaced
  have heldEdited := Text.held_of_replace spread.held small replaced
  obtain ⟨-, rfl, -⟩ := spread.idle idle
  have ends := reachable.inOrder.edit_ends spread.held edits
  cases went : highlighter.edit change with
  | error fault =>
    rw [went] at ends
    exact ⟨ends.1, Or.inl ends.2⟩
  | ok middle =>
    rw [went] at ends
    obtain ⟨front, restart, value, back, surgery, other, rest, here, made⟩ := ends
    obtain ⟨frontier, unmarked, laid, alone⟩ :=
      spread.taken_up idle edits heldEdited went surgery here made
    have listed := made.holds.toList_eq
    have spaced : 1 ≤ middle.config.spacing := made.config ▸ spread.spaced
    rw [Fault.ok_bind]
    have works : middle.needsProcessing = middle.grammar.hasPatterns := by
      rw [made.needsProcessing, made.grammar]
    cases patterned : middle.grammar.hasPatterns with
    | false =>
      rw [process_of_idle (works.trans patterned)]
      exact ⟨works.trans patterned, front, restart, value, back, _, surgery, listed,
        .plain patterned (alone patterned)⟩
    | true =>
      have marked : middle.dirty = Span.add none ⟨value.position, change.newEnd⟩ := by
        rw [made.dirty, clean]
        rfl
      by_cases fits : FitsWork edited middle.config value.position
      · have slots := slots_of_edit le_rfl went
        have roomAfter : edited.size < BreakIndex.idRange ∨
            middle.breaks.nodes.size + edited.size / middle.config.spacing ≤ BreakIndex.idRange := by
          rw [made.config]
          exact room.imp_right (Nat.add_le_add_right slots _).trans
        obtain ⟨scanned, after, processed, done, resync⟩ := laid.process_resync spaced fits roomAfter
          (slots_of_edit reachable.numbered went) patterned (works.trans patterned) unmarked marked
          (surgery.newEnd_le edits listed)
        rw [frontier] at resync
        rw [processed]
        exact ⟨done, front, restart, value, back, _, surgery, listed, resync⟩
      · rw [laid.process_eq_overflow fits (works.trans patterned)]
        rw [made.config] at fits
        exact ⟨rfl, Or.inr (not_le.mp fun small => fits ⟨by omega, fun inside => by omega⟩)⟩

/-- A letter before a bracket is scanned together with it, and the break behind the closing bracket is
met. -/
theorem resynchronizes_brackets : ∃ highlighter middle after : Highlighter,
    Reachable (.ofString "a(b)") highlighter ∧ highlighter.needsProcessing = false ∧
      highlighter.dirty = none ∧ highlighter.edit ⟨0, 0, 1⟩ = .ok middle ∧
      middle.process (.ofString "ca(b)") .never = .ok (4, after) ∧
      after.breaks.toList.map Prod.fst = [0, 2, 1, 5, 3, 4] ∧ after.needsProcessing = false ∧
      ∃ front restart value back kept,
        Surgery highlighter ⟨0, 0, 1⟩ (.ofString "ca(b)") front restart value back middle ∧
        middle.breaks.toList = front ++ (restart, value) :: kept ∧
        Resync (.ofString "ca(b)") middle (front ++ [(restart, value)]) kept value 4 after := by
  have run : (do
      let worked ←
        (ofSize Grammar.brackets ⟨1, 1024⟩ (Text.ofString "a(b)").size).process (.ofString "a(b)")
          .never
      let middle ← edit worked.2.takeDirty.2 ⟨0, 0, 1⟩
      let after ← middle.process (.ofString "ca(b)") .never
      return (worked.2.needsProcessing, after.1, after.2.breaks.toList.map Prod.fst)) =
        (.ok (false, 4, [0, 2, 1, 5, 3, 4]) : Except Fault _) := by decide +kernel
  obtain ⟨⟨_, worked⟩, processed, run⟩ := Fault.bind_eq_ok.mp run
  obtain ⟨middle, went, run⟩ := Fault.bind_eq_ok.mp run
  obtain ⟨⟨scanned, after⟩, processedToo, run⟩ := Fault.bind_eq_ok.mp run
  obtain ⟨idle, rest⟩ := Prod.mk.inj (Except.ok.inj run)
  obtain ⟨rfl, ids⟩ := Prod.mk.inj rest
  have fresh : Reachable (.ofString "a(b)")
      (ofSize Grammar.brackets ⟨1, 1024⟩ (Text.ofString "a(b)").size) :=
    .fresh Text.held_brackets Grammar.wellFormed_brackets Grammar.lawful_brackets (by decide)
  have reachable : Reachable (.ofString "a(b)") worked.takeDirty.2 :=
    .takeDirty (.process fresh processed (fresh.numbered_of_process (by decide) processed))
  have replaced : (Text.ofString "a(b)").replace 0 0 "c" = .ok (.ofString "ca(b)", ⟨0, 0, 1⟩) :=
    Text.replace_start _ rfl
  have ends := Reachable.resynchronizes reachable idle rfl replaced (by decide)
    (Or.inl (by decide))
  simp only [went, processedToo, Fault.ok_bind] at ends
  exact ⟨worked.takeDirty.2, middle, after, reachable, idle, rfl, went, processedToo, ids, ends⟩

/-- With no patterns nothing is scanned: the letter that is put before the text is not, although no old
break is met. -/
theorem not_scanned_plain : ∃ highlighter middle : Highlighter,
    Reachable (.ofString "abc") highlighter ∧ highlighter.needsProcessing = false ∧
      highlighter.dirty = none ∧
      (Text.ofString "abc").replace 0 0 "x" = .ok (.ofString "xabc", ⟨0, 0, 1⟩) ∧
      highlighter.edit ⟨0, 0, 1⟩ = .ok middle ∧
      middle.breaks.toList = [(BreakIndex.first, Break.first)] ∧
      middle.process (.ofString "xabc") .never = .ok (0, middle) ∧
      0 < (Text.ofString "xabc").size := by
  have reachable : Reachable (.ofString "abc")
      (ofSize (.plain "plain") .usual (Text.ofString "abc").size).takeDirty.2 :=
    .takeDirty (.fresh ⟨Text.isUtf8_ofString _, by decide⟩ ⟨⟨_, rfl⟩, by decide⟩
      (Grammar.lawful_of_no_regex rfl) (by decide))
  have went := edit_initial .usual
    (show (Grammar.plain "plain").maxExtend < maxSize by decide) ⟨0, 0, 1⟩
  exact ⟨_, _, reachable, rfl, rfl, Text.replace_start _ rfl, went, rfl,
    process_of_idle rfl _ _, by decide⟩

end Highlighter

end Highlight
