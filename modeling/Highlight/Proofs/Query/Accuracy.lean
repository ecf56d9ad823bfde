/-
**Settings where what was asked before costs no accuracy.**

A question that lags needs a guess that begins before it, far from all breaks. There is one where guesses
begin further back than questions may be from breaks, and no other settings have any:

* `StyleCache.serve_long`, `StyleCache.edit_behind`: a run is trimmed, and becomes a guess, by a question
  far behind its start and an edit before it;
* `StyleCache.exists_lagging`: so a cache comes to a question that lags;
* `Config.keepsAccuracy_usual`: with the usual settings no question does;
* `Config.keepsAccuracy_iff`: **the settings and grammars where no question lags**, if the sizes are not too
  large for a text where one could.
-/

import Highlight.Proofs.Query.History
import Highlight.Proofs.Query.Start

namespace Highlight

/-! ### A text that begins with a wide character -/

namespace Text

/-- Some letters. -/
def letters : Nat → Text
  | 0 => ofString ""
  | count + 1 => ofString "a" ++ letters count

/-- A character of four bytes and some letters. -/
def wide (count : Nat) : Text := ofString "😀" ++ letters count

theorem isUtf8_letters (count : Nat) : (letters count).IsUtf8 := by
  induction count with
  | zero => exact isUtf8_ofString ""
  | succ count ih => exact (isUtf8_ofString "a").append ih

theorem size_letters (count : Nat) : (letters count).size = count := by
  induction count with
  | zero => rfl
  | succ count ih =>
    rw [letters, size_append, ih, Nat.add_comm]
    rfl

theorem isUtf8_wide (count : Nat) : (wide count).IsUtf8 :=
  (isUtf8_ofString "😀").append (isUtf8_letters count)

theorem size_wide (count : Nat) : (wide count).size = count + 4 := by
  rw [wide, size_append, size_letters, Nat.add_comm]
  rfl

/-- No character begins inside of the first one. -/
theorem floor_wide (count : Nat) {position : Nat} (inside : position < 4) :
    (wide count).floor position = 0 := by
  obtain ⟨⟨boundary, before⟩, -⟩ := (wide count).isGreatest_floor position
  have continues : ∀ index : Fin 4, index ≠ 0 →
      ∃ byte, (ofString "😀").byte? index = some byte ∧ isContinuation byte = true := by decide
  have size := size_wide count
  generalize (wide count).floor position = place at *
  rcases isBoundary_iff.mp boundary with start | stop | ⟨byte, here, begins⟩
  · exact start
  · omega
  · by_contra further
    have inFirst : place < (ofString "😀").size := (before.trans_lt inside : place < 4)
    obtain ⟨other, there, goesOn⟩ :=
      continues ⟨place, inFirst⟩ fun first => further (congrArg Fin.val first)
    rw [wide, byte?_append, if_pos inFirst, there] at here
    rw [Option.some.inj here, begins] at goesOn
    cases goesOn

/-- Where one text goes on as another one does. -/
theorem sameFrom_append (first : Text) {second : Text} (utf8 : second.IsUtf8) :
    SameFrom (first ++ second) first.size second 0 := by
  refine ⟨fun index => ?_, isBoundary_append first utf8, isBoundary_zero second⟩
  rw [byte?_append, if_neg (by omega), Nat.add_sub_cancel_left, Nat.zero_add]

end Text

open BreakIndex (Entry)

variable {text edited : Text} {change : Change} {highlighter : Highlighter} {behind ahead : List Entry}
  {reached : Break}

namespace StyleCache

/-! ### Runs that are trimmed, and runs that become guesses -/

/-- A long run that serves a question far behind its start keeps what is not too far before the question. -/
theorem serve_long (text : Text) (highlighter : Highlighter) {run : StyleRun} (hint : Option BreakId)
    {start stop farthest : Nat}
    (fits : 4 * farthest ≤ maxSize) (ordered : start ≤ stop) (inside : stop ≤ run.row.stop)
    (beyond : run.row.start + farthest ≤ start) (long : 4 * farthest < run.row.styles.size) :
    ∃ value row, row.start = start - farthest ∧ row.stop = run.row.stop ∧
      serve run hint text highlighter start stop farthest =
        .ok (if run.exact then .exact value else .approximate value,
          ⟨some ⟨row, run.state, run.exact⟩, hint⟩) := by
  let cut := start - run.row.start - farthest
  have extended : extend run text highlighter stop = .ok run := by
    unfold extend
    rw [if_neg (not_lt.mpr inside)]
    rfl
  have trimmed : trim run start farthest = .ok
      ⟨⟨run.row.start + cut, run.row.styles.extract cut run.row.styles.size⟩, run.state, run.exact⟩ := by
    unfold trim
    rw [checkedMul_eq_ok fits, Fault.ok_bind, if_neg (not_le.mpr long),
      checkedSub_eq_ok (by omega), Fault.ok_bind]
    rfl
  have begins : run.row.start + cut = start - farthest := by
    show run.row.start + (start - run.row.start - farthest) = _
    omega
  have stops : StyleRow.stop ⟨run.row.start + cut,
      run.row.styles.extract cut run.row.styles.size⟩ = run.row.stop := by
    unfold StyleRow.stop at inside ⊢
    simp only [Array.size_extract, min_self]
    omega
  have read : piece ⟨run.row.start + cut, run.row.styles.extract cut run.row.styles.size⟩ start stop =
      .ok _ := if_pos ⟨by rw [begins]; exact Nat.sub_le _ _, ordered, inside.trans stops.ge⟩
  exact ⟨_, _, begins, stops, serve_eq_ok_iff.mpr ⟨run, _, _, extended, trimmed, read, rfl, rfl⟩⟩

/-- An edit before a run makes a guess of it and moves it along. -/
theorem edit_behind {run : StyleRun} (hint : Option BreakId) {grammar : Grammar}
    (fits : run.row.stop + (grammar.maxExtend + 1) ≤ maxSize)
    (clear : change.oldEnd + (grammar.maxExtend + 1) ≤ run.row.start)
    (ordered : change.start ≤ change.oldEnd) :
    StyleCache.edit ⟨some run, hint⟩ change grammar = .ok
      ⟨some ⟨⟨shifted run.row.start change.delta, run.row.styles⟩, run.state.shift change.delta, false⟩,
        hint⟩ := by
  have inOrder : run.row.start ≤ run.row.stop := Nat.le_add_right _ _
  unfold StyleCache.edit Highlighter.reach
  simp only [checkedAdd_eq_ok (show grammar.maxExtend + 1 ≤ maxSize by omega), Fault.ok_bind,
    checkedAdd_eq_ok fits, if_neg (show ¬ run.row.stop + (grammar.maxExtend + 1) ≤ change.start by omega),
    checkedAdd_eq_ok (show change.oldEnd + (grammar.maxExtend + 1) ≤ maxSize by omega), if_pos clear]
  rfl

/-- A question that a new cache begins at the first break for is answered exactly by it, if guesses begin no
further on. -/
theorem answersExactly_of_guess (laid : highlighter.Laid text behind Break.first ahead)
    (patterned : highlighter.grammar.hasPatterns = true)
    (approximate : highlighter.grammar.approximate = true)
    (fits : 4 * highlighter.config.farthest highlighter.grammar ≤ maxSize) {position : Nat}
    (inside : position < text.size)
    (guess : text.floor (position - highlighter.config.reparseRange) = 0) :
    empty.AnswersExactly text highlighter position 1 := by
  have asks : Asks text highlighter position 1 := ⟨patterned, by omega⟩
  have distance : highlighter.config.maxDistance highlighter.grammar =
      .ok (highlighter.config.farthest highlighter.grammar) :=
    Config.maxDistance_eq_ok_iff.mpr ⟨by omega, rfl⟩
  have here : min position text.size = position := min_eq_left inside.le
  obtain ⟨id, value, before, good, -, -, starts⟩ := laid.exists_start distance position
  obtain ⟨-, begins⟩ := starts empty
  rw [if_pos (Or.inr ⟨approximate, guess.trans_le (Nat.zero_le _)⟩)] at begins
  rw [← here] at begins
  obtain ⟨aligned, behind⟩ := laid.seed?_spec begins
  obtain ⟨styles, after, served⟩ :=
    serve_of_fits laid fits aligned (some id) asks.some.le (min_le_right _ _) behind
  exact ⟨styles, after, (styles_of_new laid.held.size_lt_maxSize.le asks distance rfl begins).trans
    served⟩

/-- A run that begins where the question does is not trimmed. -/
theorem serve_whole (laid : highlighter.Laid text behind reached ahead)
    (fits : 4 * highlighter.config.farthest highlighter.grammar ≤ maxSize) {run : StyleRun}
    (aligned : run.Aligned highlighter.grammar text) (hint : Option BreakId) {stop : Nat}
    (ordered : run.row.start ≤ stop) (inside : stop ≤ text.size) :
    ∃ answer longer, serve run hint text highlighter run.row.start stop
        (highlighter.config.farthest highlighter.grammar) = .ok (answer, ⟨some longer, hint⟩) ∧
      longer.Aligned highlighter.grammar text ∧ longer.row.start = run.row.start ∧
      stop ≤ longer.row.stop ∧ longer.exact = run.exact := by
  obtain ⟨value, after, served⟩ := serve_of_fits laid fits aligned hint ordered inside le_rfl
  obtain ⟨longer, shorter, styles, extended, trimmed, read, answered, rfl⟩ := serve_eq_ok_iff.mp served
  obtain ⟨alignedLonger, further, starts, exact⟩ :=
    extend_aligned laid.wellFormed laid.lawful.bounded laid.held aligned inside extended
  obtain ⟨cut, within, rfl⟩ := trim_cases trimmed
  obtain rfl : cut = 0 := by omega
  rw [Nat.add_zero, Array.extract_size] at served
  exact ⟨_, longer, served, alignedLonger, starts, further, exact⟩

/-! ### A question that lags -/

section Lagging

variable {config : Config} {grammar : Grammar} (wellFormed : grammar.WellFormed)
  (lawful : grammar.Lawful) (patterned : grammar.hasPatterns = true)
  (moderate : 4 * config.farthest grammar + 5 < 2 ^ 63)
include wellFormed lawful patterned moderate

/-- Two questions leave an exact run that begins far behind the start of a long text, of which nothing has
been processed. -/
theorem exists_trimmed {text : Text} (held : text.Held)
    (long : 4 * config.farthest grammar + 5 ≤ text.size) :
    ∃ row state hint, Reachable text (.ofSize grammar config text.size)
        ⟨some ⟨row, state, true⟩, hint⟩ ∧
      row.start = config.farthest grammar + 2 ∧ row.stop ≤ text.size := by
  have laid : (Highlighter.ofSize grammar config text.size).Laid text [] Break.first [] :=
    Highlighter.laid_ofSize held wellFormed lawful
  have small := held.size_lt
  have fits : 4 * config.farthest grammar ≤ maxSize := by
    unfold maxSize
    omega
  have distance : config.maxDistance grammar = .ok (config.farthest grammar) :=
    Config.maxDistance_eq_ok_iff.mpr ⟨by omega, rfl⟩
  have fresh : Reachable text (.ofSize grammar config text.size) .empty := .fresh held wellFormed lawful
  -- The first question is about the whole text.
  have first := styles_start (Highlighter.begins_ofSize grammar config text.size) patterned distance
    held.size_lt_maxSize.le (show 0 < min text.size text.size by omega)
  rw [min_self] at first
  obtain ⟨answer, whole, served, aligned, starts, stops, exact⟩ :=
    serve_whole laid fits (aligned_fromStart grammar text) (some BreakIndex.first)
      (Nat.zero_le text.size) le_rfl
  have asked := fresh.styles (first.trans served)
  -- The second one is about a byte that is further from its start than a run may be long before.
  have asks : Asks text (.ofSize grammar config text.size) (2 * config.farthest grammar + 2) 1 :=
    ⟨patterned, by omega⟩
  have here : min (2 * config.farthest grammar + 2) text.size = 2 * config.farthest grammar + 2 := by
    omega
  obtain ⟨id, value, -, -, -, -, begins⟩ := laid.exists_start distance
    (min (2 * config.farthest grammar + 2) text.size)
  change whole.row.start = 0 at starts
  obtain ⟨reusable, reused, used⟩ := exists_isReusable asked.aligned
    (show text.size + config.farthest grammar ≤ maxSize by unfold maxSize; omega)
    (begins ⟨some whole, some BreakIndex.first⟩).1
  obtain rfl : reusable = true := used.mpr ⟨whole, rfl, by omega, by omega, Or.inl exact⟩
  have inText : whole.row.stop ≤ text.size := aligned.stop.trans_le aligned.good.position_le
  have length : whole.row.start + whole.row.styles.size = whole.row.stop := rfl
  obtain ⟨styles, row, rowStart, rowStop, servedToo⟩ :=
    serve_long text (.ofSize grammar config text.size) (some BreakIndex.first) fits asks.some.le
      ((min_le_right _ _).trans stops) (by omega) (by omega)
  have second := styles_of_reused held.size_lt_maxSize.le asks distance rfl reused
  rw [exact] at servedToo
  exact ⟨row, whole.state, some BreakIndex.first, asked.styles (second.trans servedToo), by omega,
    rowStop.trans_le inText⟩

/-- **Where guesses begin further back than questions may be from breaks, but for three bytes, a question
comes to lag**: the byte before the trimmed run is deleted, and the text begins with a wide character
then. -/
theorem exists_lagging (approximate : grammar.approximate = true)
    (further : config.farthest grammar < config.reparseRange + 3) :
    ∃ text highlighter cache position, Reachable text highlighter cache ∧
      highlighter.config = config ∧ highlighter.grammar = grammar ∧
      empty.AnswersExactly text highlighter position 1 ∧ cache.Lags text highlighter position 1 := by
  have size := Text.size_wide (4 * config.farthest grammar)
  have sizeBefore : (Text.ofString "a" ++ .wide (4 * config.farthest grammar)).size =
      4 * config.farthest grammar + 5 := by
    rw [Text.size_append, size, Nat.add_comm]
    rfl
  have utf8 := Text.isUtf8_wide (4 * config.farthest grammar)
  have heldEdited : (Text.wide (4 * config.farthest grammar)).Held := ⟨utf8, by omega⟩
  have held : (Text.ofString "a" ++ .wide (4 * config.farthest grammar)).Held :=
    ⟨(Text.isUtf8_ofString "a").append utf8, by omega⟩
  obtain ⟨row, state, hint, reachable, start, stop⟩ :=
    exists_trimmed wellFormed lawful patterned moderate held sizeBefore.ge
  have near : grammar.maxExtend ≤ config.farthest grammar := by
    unfold Config.farthest
    omega
  -- The first byte is deleted.
  obtain ⟨inserted, change, replaced, newEnd⟩ := Text.exists_replace_of_sameFrom held heldEdited
    (Text.sameFrom_append (.ofString "a") utf8)
  have edits := Text.edits_of_replace held heldEdited.size_lt replaced
  have range : change.start = 0 ∧ change.oldEnd = 1 := by
    obtain ⟨-, -, -, -, lengths⟩ := Text.replace_eq_ok replaced
    exact Change.range_of_ofLengths lengths
  have handles : config.Handles grammar := by
    unfold Config.farthest at moderate near
    exact ⟨by unfold maxSize; omega, fun _ => by unfold maxSize; omega⟩
  have stands := Highlighter.stands_ofSize held
    (show config.Admits grammar from ⟨handles, wellFormed, lawful⟩)
  obtain ⟨moved, went, sameGrammar, sameConfig, -⟩ := stands.edit_eq_ok edits heldEdited
  have laid := stands.laid.after_edit_first edits heldEdited went
  have told : StyleCache.edit ⟨some ⟨row, state, true⟩, hint⟩ change moved.grammar = .ok
      ⟨some ⟨⟨shifted row.start change.delta, row.styles⟩, state.shift change.delta, false⟩, hint⟩ := by
    rw [sameGrammar]
    refine edit_behind hint ?_ ?_ edits.ordered
    · show row.stop + (grammar.maxExtend + 1) ≤ maxSize
      unfold maxSize
      omega
    · show change.oldEnd + (grammar.maxExtend + 1) ≤ row.start
      omega
  have shift : shifted row.start change.delta = config.farthest grammar + 1 := by
    have carried := edits.carry_behind (show change.oldEnd ≤ row.start by omega) (by omega)
    unfold Change.carry at carried
    rw [if_pos (by omega)] at carried
    omega
  have farthest : moved.config.farthest moved.grammar = config.farthest grammar := by
    rw [sameConfig, sameGrammar]
    rfl
  -- A new cache begins at the first break, however far that is.
  obtain ⟨id, value, sought, found, -, first⟩ := laid.exists_checkpoint (config.farthest grammar + 1)
  have atStart : value.position = 0 := Nat.le_zero.mp (first.trans (min_le_right _ _))
  have here : min (config.farthest grammar + 1) (Text.wide (4 * config.farthest grammar)).size =
      config.farthest grammar + 1 := by omega
  refine ⟨_, moved, _, config.farthest grammar + 1, reachable.edit replaced heldEdited.size_lt went told,
    sameConfig, sameGrammar, ?_, ⟨?_, by omega⟩, _, rfl, rfl, ?_⟩
  · refine answersExactly_of_guess laid ?_ ?_ ?_ (by omega) (Text.floor_wide _ ?_)
    · rw [sameGrammar]
      exact patterned
    · rw [sameGrammar]
      exact approximate
    · rw [farthest]
      unfold maxSize
      omega
    · rw [sameConfig]
      show config.farthest grammar + 1 - config.reparseRange < 4
      omega
  · rw [sameGrammar]
    exact patterned
  · rw [here, farthest]
    refine ⟨shift.le, ?_, id, value, sought hint, found, by omega⟩
    show config.farthest grammar + 1 ≤ shifted row.start change.delta + row.styles.size + _
    omega

end Lagging

end StyleCache

/-- What was asked before never costs accuracy: whatever operations have led to, any question that a new
cache answers exactly is answered exactly. -/
def Config.KeepsAccuracy (config : Config) (grammar : Grammar) : Prop :=
  ∀ {text highlighter cache}, StyleCache.Reachable text highlighter cache →
    highlighter.config = config → highlighter.grammar = grammar →
    ∀ {position count}, StyleCache.empty.AnswersExactly text highlighter position count →
      cache.AnswersExactly text highlighter position count

/-- Nothing lags without patterns or without guesses, and where guesses begin three bytes less far back than
questions may be from breaks. -/
theorem Config.keepsAccuracy_of_bound {config : Config} {grammar : Grammar}
    (bound : grammar.hasPatterns = true → grammar.approximate = true →
      config.reparseRange + 3 ≤ config.farthest grammar) : config.KeepsAccuracy grammar := by
  rintro text highlighter cache reachable rfl rfl position count fresh
  obtain ⟨behind, reached, ahead, laid⟩ := reachable.laid
  by_cases asks : StyleCache.Asks text highlighter position count
  · rcases StyleCache.answers_of_fresh laid reachable.aligned asks fresh with
      ⟨-, exactly⟩ | ⟨-, -, approximate, further⟩
    · exact exactly
    · exact absurd (bound asks.patterned approximate) (not_le.mpr further)
  · exact StyleCache.answersExactly_of_not_asks laid.held.size_lt_maxSize.le asks

/-- The usual settings are such, whatever the grammar. -/
theorem Config.keepsAccuracy_usual (grammar : Grammar) : usual.KeepsAccuracy grammar :=
  keepsAccuracy_of_bound fun _ _ => by
    show 1024 + 3 ≤ 3 * max 512 grammar.maxExtend
    omega

/-- **No other settings are such**, if the sizes are not too large for a text where a question could lag. -/
theorem Config.keepsAccuracy_iff {config : Config} {grammar : Grammar} (wellFormed : grammar.WellFormed)
    (lawful : grammar.Lawful) (moderate : 4 * config.farthest grammar + 5 < 2 ^ 63) :
    config.KeepsAccuracy grammar ↔ (grammar.hasPatterns = true → grammar.approximate = true →
      config.reparseRange + 3 ≤ config.farthest grammar) := by
  refine ⟨fun keeps patterned approximate => ?_, keepsAccuracy_of_bound⟩
  by_contra further
  obtain ⟨text, highlighter, cache, position, reachable, rfl, rfl, fresh, lags⟩ :=
    StyleCache.exists_lagging wellFormed lawful patterned moderate approximate (not_le.mp further)
  obtain ⟨behind, reached, ahead, laid⟩ := reachable.laid
  rcases StyleCache.answers_of_fresh laid reachable.aligned lags.1 fresh with
    ⟨current, -⟩ | ⟨-, guesses, -⟩
  · exact current lags
  · exact (keeps reachable rfl rfl fresh).not_guesses guesses

end Highlight
