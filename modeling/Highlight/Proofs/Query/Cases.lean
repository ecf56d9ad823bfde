/-
**What questions and edits do with the run that is kept.**

For each operation on the cache, all that it can have done if it went well. What is true of a run is
proved from these alone:

* `StyleCache.extend_cases`, `StyleCache.trim_cases`: a run is scanned further, and cut off at its front;
* `StyleCache.serve_eq_ok_iff`: so it is before styles are read from it;
* `StyleCache.seed?_cases`: a new run begins at a break, or at a guess;
* `StyleCache.styles_ways`, `StyleCache.styles_cases`: **the ways in which a question is answered**;
* `StyleCache.edit_cases`, `StyleCache.mem_invalidate`: what edits and updates leave of the run.
-/

import Highlight.Proofs.Fault
import Highlight.Proofs.Text.Boundary
import Highlight.Query.Cache

namespace Highlight

namespace StyleCache

variable {text : Text} {highlighter : Highlighter} {cache after : StyleCache} {run : StyleRun}

/-! ### Serving a question -/

/-- A run is scanned further if it ends too early. -/
theorem extend_cases {longer : StyleRun} {stop : Nat}
    (went : extend run text highlighter stop = .ok longer) :
    stop ≤ run.row.stop ∧ longer = run ∨
      ∃ unit row state ending, highlighter.config.windowUnit = .ok unit ∧
        (Scanner.ofUnit highlighter.grammar unit).run text StyleRow.sink stop run.state run.row =
          .ok (row, state, ending) ∧ longer = ⟨row, state, run.exact⟩ := by
  unfold extend at went
  split at went
  · obtain ⟨unit, window, went⟩ := Fault.bind_eq_ok.mp went
    obtain ⟨⟨row, state, ending⟩, ran, went⟩ := Fault.bind_eq_ok.mp went
    cases went
    exact Or.inr ⟨unit, row, state, ending, window, ran, rfl⟩
  · rename_i reached
    cases went
    exact Or.inl ⟨not_lt.mp reached, rfl⟩

/-- A run is cut off somewhere between its start and the position. -/
theorem trim_cases {shorter : StyleRun} {position maxDistance : Nat}
    (went : trim run position maxDistance = .ok shorter) :
    ∃ cut ≤ position - run.row.start, shorter =
      ⟨⟨run.row.start + cut, run.row.styles.extract cut run.row.styles.size⟩, run.state, run.exact⟩ := by
  unfold trim at went
  obtain ⟨bound, -, went⟩ := Fault.bind_eq_ok.mp went
  split at went
  · cases went
    refine ⟨0, Nat.zero_le _, ?_⟩
    rw [Nat.add_zero, Array.extract_size]
  · obtain ⟨distance, measured, went⟩ := Fault.bind_eq_ok.mp went
    obtain ⟨-, rfl⟩ := checkedSub_eq_ok_iff.mp measured
    cases went
    exact ⟨_, Nat.sub_le _ _, rfl⟩

/-- Styles are read from a run that has been scanned far enough, and what has been cut off it is kept. -/
theorem serve_eq_ok_iff {hint : Option BreakId} {start stop maxDistance : Nat}
    {answer : Answer (Array StyleId)} :
    serve run hint text highlighter start stop maxDistance = .ok (answer, after) ↔
      ∃ longer shorter styles, extend run text highlighter stop = .ok longer ∧
        trim longer start maxDistance = .ok shorter ∧ piece shorter.row start stop = .ok styles ∧
        (if shorter.exact then .exact styles else .approximate styles) = answer ∧
        ⟨some shorter, hint⟩ = after := by
  unfold serve
  simp only [Fault.bind_eq_ok]
  constructor
  · rintro ⟨longer, extended, shorter, trimmed, styles, read, went⟩
    cases went
    exact ⟨longer, shorter, styles, extended, trimmed, read, rfl, rfl⟩
  · rintro ⟨longer, shorter, styles, extended, trimmed, read, rfl, rfl⟩
    exact ⟨longer, extended, shorter, trimmed, styles, read, rfl⟩

/-! ### Questions -/

/-- A new run begins at the break that was nearest, or as a guess at a character of the text before the
position. -/
theorem seed?_cases {position : Nat} {hint : BreakId}
    (went : cache.seed? text highlighter position = .ok (some run, hint)) :
    highlighter.checkpointBefore cache.hint position = .ok hint ∧
      ∃ value, highlighter.breaks.get hint = .ok value ∧
        (run = ⟨.empty value.position, .ofBreak value, true⟩ ∨
          ∃ place, (text.isBoundary place = true ∧ place ≤ position) ∧
            run = ⟨.empty place, .startingAt place .root, false⟩) := by
  unfold seed? at went
  obtain ⟨checkpoint, sought, went⟩ := Fault.bind_eq_ok.mp went
  obtain ⟨value, found, went⟩ := Fault.bind_eq_ok.mp went
  obtain ⟨seed, seeded, went⟩ := Fault.bind_eq_ok.mp went
  unfold seedFrom at seeded
  obtain ⟨distance, -, seeded⟩ := Fault.bind_eq_ok.mp seeded
  obtain ⟨maxDistance, -, seeded⟩ := Fault.bind_eq_ok.mp seeded
  split at seeded
  · cases seeded
    cases went
    exact ⟨sought, value, found, Or.inl rfl⟩
  · split at seeded
    · cases seeded
      cases went
      have nearest := (text.isGreatest_floor (position - highlighter.config.reparseRange)).1
      exact ⟨sought, value, found,
        Or.inr ⟨_, ⟨nearest.1, nearest.2.trans (Nat.sub_le _ _)⟩, rfl⟩⟩
    · cases seeded
      cases went

/-- The bytes that a question is about end with the text at the latest. -/
theorem min_saturatingAdd (small : text.size ≤ maxSize) (position count : Nat) :
    min (saturatingAdd (min position text.size) count) text.size =
      min (position + count) text.size := by
  unfold saturatingAdd
  omega

/-- A question is answered at once if there are no patterns or no bytes, else from the run that is
kept or from a new one, if there is any. -/
theorem styles_ways {position count : Nat} {answer : Answer (Array StyleId)}
    (went : cache.styles text highlighter position count = .ok (answer, after)) :
    ∃ start stop, start = min position text.size ∧ stop = min (saturatingAdd start count) text.size ∧
      (highlighter.grammar.hasPatterns = false ∧ after = cache ∧
          answer = .exact (Array.replicate (stop - start) defaultStyle) ∨
        start = stop ∧ after = cache ∧ answer = .exact #[] ∨
        (∃ run hint maxDistance,
          (run ∈ cache.run ∨ ∃ id, cache.seed? text highlighter start = .ok (some run, id)) ∧
          serve run hint text highlighter start stop maxDistance = .ok (answer, after)) ∨
        answer = .unavailable ∧ after.run = none) := by
  refine ⟨_, _, rfl, rfl, ?_⟩
  unfold styles at went
  simp only at went
  split at went
  · rename_i plain
    cases went
    exact Or.inl ⟨Bool.not_eq_true _ ▸ plain, rfl, rfl⟩
  · split at went
    · rename_i nothing
      cases went
      exact Or.inr (Or.inl ⟨nothing, rfl, rfl⟩)
    · obtain ⟨maxDistance, -, went⟩ := Fault.bind_eq_ok.mp went
      obtain ⟨reusable, -, went⟩ := Fault.bind_eq_ok.mp went
      split at went
      · exact Or.inr (Or.inr (Or.inl ⟨_, _, maxDistance, Or.inl rfl, went⟩))
      · obtain ⟨⟨seed, hint⟩, seeded, went⟩ := Fault.bind_eq_ok.mp went
        cases seed with
        | some run =>
          exact Or.inr (Or.inr (Or.inl ⟨run, _, maxDistance, Or.inr ⟨hint, seeded⟩, went⟩))
        | none =>
          cases went
          exact Or.inr (Or.inr (Or.inr ⟨rfl, rfl⟩))

/-- The same with the bytes that the question is about. -/
theorem styles_cases (small : text.size ≤ maxSize) {position count : Nat}
    {answer : Answer (Array StyleId)}
    (went : cache.styles text highlighter position count = .ok (answer, after)) :
    highlighter.grammar.hasPatterns = false ∧ after = cache ∧
        answer = .exact (Array.replicate
          (min (position + count) text.size - min position text.size) defaultStyle) ∨
      min position text.size = min (position + count) text.size ∧ after = cache ∧
        answer = .exact #[] ∨
      (∃ run hint maxDistance, (run ∈ cache.run ∨
          ∃ id, cache.seed? text highlighter (min position text.size) = .ok (some run, id)) ∧
        serve run hint text highlighter (min position text.size) (min (position + count) text.size)
          maxDistance = .ok (answer, after)) ∨
      answer = .unavailable ∧ after.run = none := by
  obtain ⟨start, stop, rfl, rfl, ways⟩ := styles_ways went
  rw [min_saturatingAdd small] at ways
  exact ways

/-! ### Edits and updates -/

/-- A run that an edit leaves is the one before it, out of reach, or moved along behind it as a guess. -/
theorem edit_cases {change : Change} {grammar : Grammar}
    (went : cache.edit change grammar = .ok after) (kept : run ∈ after.run) :
    ∃ old ∈ cache.run,
      old.row.stop + (grammar.maxExtend + 1) ≤ change.start ∧ run = old ∨
        change.oldEnd + (grammar.maxExtend + 1) ≤ old.row.start ∧
          run = ⟨⟨shifted old.row.start change.delta, old.row.styles⟩,
            old.state.shift change.delta, false⟩ := by
  unfold StyleCache.edit at went
  rcases cache with ⟨_ | old, hint⟩
  · cases went
    cases kept
  · obtain ⟨reach, sum, went⟩ := Fault.bind_eq_ok.mp went
    obtain ⟨-, rfl⟩ := checkedAdd_eq_ok_iff.mp sum
    obtain ⟨bound, sum, went⟩ := Fault.bind_eq_ok.mp went
    obtain ⟨-, rfl⟩ := checkedAdd_eq_ok_iff.mp sum
    refine ⟨old, rfl, ?_⟩
    split at went
    · rename_i clear
      cases went
      cases kept
      exact Or.inl ⟨clear, rfl⟩
    · obtain ⟨start, sum, went⟩ := Fault.bind_eq_ok.mp went
      obtain ⟨-, rfl⟩ := checkedAdd_eq_ok_iff.mp sum
      split at went
      · rename_i clear
        cases went
        cases kept
        exact Or.inr ⟨clear, rfl⟩
      · cases went
        cases kept

/-- Invalidating a range leaves the run or drops it. -/
theorem mem_invalidate {span : Span} (kept : run ∈ (cache.invalidate span).run) : run ∈ cache.run := by
  unfold StyleCache.invalidate at kept
  split at kept
  · split at kept
    · cases kept
    · exact kept
  · exact kept

end StyleCache

end Highlight
