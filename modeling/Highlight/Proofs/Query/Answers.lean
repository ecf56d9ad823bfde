/-
**Every question is answered, and every edit can be told to the cache.**

What is kept between questions is a run that is aligned, so that the scan can go on from its end:

* `Highlighter.Laid.exists_start`: where a new run begins, which is the same for every cache;
* `StyleCache.exists_isReusable`: when the run that is kept is used again;
* `StyleCache.isReusable_eq_ok`, `StyleCache.seed?_eq_ok`: the run that is kept, or a new one, begins
  before what is asked for;
* `StyleCache.styles_eq_ok`: **every question is answered**;
* `StyleCache.exists_edit`: an edit can be told to the cache.
-/

import Highlight.Proofs.Highlighter.Stands
import Highlight.Proofs.Query.Idle

namespace Highlight

open BreakIndex (Entry)

variable {text edited : Text} {change : Change} {highlighter : Highlighter}
  {behind ahead : List Entry} {reached : Break} {cache : StyleCache}

/-! ### New runs -/

/-- How far from a break a question may be. -/
def Config.farthest (config : Config) (grammar : Grammar) : Nat :=
  3 * max config.spacing grammar.maxExtend

theorem Config.maxDistance_eq_ok_iff {config : Config} {grammar : Grammar} {distance : Nat} :
    config.maxDistance grammar = .ok distance ↔
      config.farthest grammar ≤ maxSize ∧ config.farthest grammar = distance := by
  unfold maxDistance farthest checkedMul
  split
  · rename_i fits
    simp [fits]
  · rename_i exceeds
    simp [exceeds]

theorem Config.maxDistance_eq_overflow {config : Config} {grammar : Grammar}
    (large : ¬ config.farthest grammar ≤ maxSize) : config.maxDistance grammar = .error .overflow :=
  checkedMul_eq_overflow large

namespace Highlighter.Laid

variable (laid : Laid text highlighter behind reached ahead)
include laid

/-- A run is aligned where it begins, which is before what is asked for. -/
theorem seed?_spec {position : Nat} {run : StyleRun} {hint : BreakId}
    (went : cache.seed? text highlighter position = .ok (some run, hint)) :
    run.Aligned highlighter.grammar text ∧ run.row.start ≤ position := by
  obtain ⟨id, value, sought, found, good, before⟩ := laid.exists_checkpoint position
  obtain ⟨soughtToo, checkpoint, foundToo, begins⟩ := StyleCache.seed?_cases went
  cases (sought _).symm.trans soughtToo
  cases found.symm.trans foundToo
  obtain rfl | ⟨place, ⟨boundary, inFront⟩, rfl⟩ := begins
  · exact ⟨StyleRun.aligned_startingAt good.boundary good.known true, before.trans (min_le_left _ _)⟩
  · exact ⟨StyleRun.aligned_startingAt boundary (PatternStack.known_root highlighter.grammar) false,
      inFront⟩

/-- **A new run begins at the same place for every cache**: at the break before the position if that is
near, or else at a guess, if the grammar allows it. Only the distance of that break tells whether a guess
is used again. -/
theorem exists_start {farthest : Nat}
    (distance : highlighter.config.maxDistance highlighter.grammar = .ok farthest) (position : Nat) :
    ∃ id value, value.position ≤ min position reached.position ∧
      value.spot.Good highlighter.grammar text ∧
      (∀ hint, highlighter.checkpointBefore hint position = .ok id) ∧
      highlighter.breaks.get id = .ok value ∧
      ∀ cache : StyleCache,
        cache.canSeedExact highlighter position =
          .ok (decide (position - value.position ≤ farthest)) ∧
        cache.seed? text highlighter position =
          .ok (if position - value.position ≤ farthest ∨ highlighter.grammar.approximate = true ∧
                text.floor (position - highlighter.config.reparseRange) ≤ value.position then
              some ⟨.empty value.position, .ofBreak value, true⟩
            else if highlighter.grammar.approximate then
              some ⟨.empty (text.floor (position - highlighter.config.reparseRange)),
                .startingAt (text.floor (position - highlighter.config.reparseRange)) .root, false⟩
            else none, id) := by
  obtain ⟨id, value, sought, found, good, before⟩ := laid.exists_checkpoint position
  have behind := before.trans (min_le_left _ _)
  refine ⟨id, value, before, good, sought, found, fun cache => ⟨?_, ?_⟩⟩
  · unfold StyleCache.canSeedExact
    rw [sought, Fault.ok_bind, distance, Fault.ok_bind, BreakIndex.position_of_get found,
      Fault.ok_bind, checkedSub_eq_ok behind, Fault.ok_bind]
    rfl
  · unfold StyleCache.seed? StyleCache.seedFrom
    simp only [sought, found, Fault.ok_bind, checkedSub_eq_ok behind, distance]
    split
    · rfl
    · split <;> rfl

end Highlighter.Laid

namespace Highlighter.Stands

variable (stands : Stands text highlighter behind reached ahead)
include stands

/-- With patterns it can be told how far questions may be from checkpoints. -/
theorem maxDistance_eq (patterned : highlighter.grammar.hasPatterns = true) :
    highlighter.config.maxDistance highlighter.grammar =
      .ok (highlighter.config.farthest highlighter.grammar) := by
  have distance := stands.admits.distance patterned
  exact Config.maxDistance_eq_ok_iff.mpr ⟨by unfold Config.farthest; omega, rfl⟩

end Highlighter.Stands

namespace StyleCache

/-! ### What is kept between questions -/

/-- The run that is kept is aligned, and none is without patterns. -/
structure Stands (text : Text) (grammar : Grammar) (cache : StyleCache) : Prop where
  aligned : cache.Aligned grammar text
  plain : grammar.hasPatterns = false → cache.run = none

theorem stands_empty {grammar : Grammar} : Stands text grammar empty :=
  ⟨aligned_empty, fun _ => rfl⟩

theorem Stands.invalidate {grammar : Grammar} (kept : Stands text grammar cache) (span : Span) :
    Stands text grammar (cache.invalidate span) := by
  refine ⟨kept.aligned.invalidate span, fun plain => ?_⟩
  rw [Option.eq_none_iff_forall_not_mem]
  intro run member
  have before := mem_invalidate member
  rw [kept.plain plain] at before
  cases before

/-! ### What serves a question -/

/-- When the run that is kept is used again, where the sizes that have to be formed are such. -/
theorem exists_isReusable (aligned : cache.Aligned highlighter.grammar text)
    {position farthest distance : Nat} (fits : text.size + farthest ≤ maxSize)
    (seeds : cache.canSeedExact highlighter position = .ok (decide (distance ≤ farthest))) :
    ∃ reusable, cache.isReusable highlighter position farthest = .ok reusable ∧
      (reusable = true ↔ ∃ run ∈ cache.run, run.row.start ≤ position ∧
        position ≤ run.row.stop + farthest ∧ (run.exact = true ∨ farthest < distance)) := by
  unfold isReusable
  cases kept : cache.run with
  | none => exact ⟨false, rfl, by simp⟩
  | some run =>
    have runAligned := aligned run kept
    have stop : run.row.stop ≤ text.size := runAligned.stop.trans_le runAligned.good.position_le
    simp only [Option.mem_some_iff, exists_eq_left']
    by_cases before : position < run.row.start
    · rw [if_pos before]
      exact ⟨false, rfl, iff_of_false Bool.false_ne_true fun used => not_le.mpr before used.1⟩
    · rw [if_neg before, checkedAdd_eq_ok (by omega), Fault.ok_bind]
      by_cases behind : run.row.stop + farthest < position
      · rw [if_pos behind]
        exact ⟨false, rfl, iff_of_false Bool.false_ne_true fun used => not_le.mpr behind used.2.1⟩
      · rw [if_neg behind, seeds]
        cases run.exact with
        | true => exact ⟨true, rfl, by simp; omega⟩
        | false => exact ⟨_, rfl, by simp; omega⟩

/-- A run that begins before what is asked for serves the question, where the sizes that have to be formed
are such. -/
theorem serve_of_fits (laid : highlighter.Laid text behind reached ahead)
    (fits : 4 * highlighter.config.farthest highlighter.grammar ≤ maxSize)
    {run : StyleRun} (runAligned : run.Aligned highlighter.grammar text) (hint : Option BreakId)
    {start stop : Nat} (ordered : start ≤ stop) (inside : stop ≤ text.size)
    (begins : run.row.start ≤ start) :
    ∃ value after, serve run hint text highlighter start stop
        (highlighter.config.farthest highlighter.grammar) =
      .ok (if run.exact then .exact value else .approximate value, after) := by
  have small := laid.held.size_lt
  have window : text.size + 4 * highlighter.config.spacing ≤ maxSize := by
    unfold Config.farthest maxSize at *
    omega
  exact serve_eq_ok laid.wellFormed laid.lawful.bounded laid.held runAligned ordered inside window fits
    begins

section Questions

variable (stands : highlighter.Stands text behind reached ahead)
  (patterned : highlighter.grammar.hasPatterns = true)
include stands patterned

/-- It can be told whether the run that is kept serves a question. -/
theorem isReusable_eq_ok (aligned : cache.Aligned highlighter.grammar text) (position : Nat) :
    ∃ reusable, cache.isReusable highlighter position
        (highlighter.config.farthest highlighter.grammar) = .ok reusable ∧
      (reusable = true → ∃ run ∈ cache.run, run.row.start ≤ position) := by
  have distance := stands.admits.distance patterned
  have small := stands.held.size_lt
  obtain ⟨_, _, -, -, -, -, starts⟩ :=
    stands.laid.exists_start (stands.maxDistance_eq patterned) position
  obtain ⟨reusable, told, used⟩ := exists_isReusable aligned
    (by unfold Config.farthest maxSize at *; omega) (starts cache).1
  refine ⟨reusable, told, fun serves => ?_⟩
  obtain ⟨run, member, behind, -⟩ := used.mp serves
  exact ⟨run, member, behind⟩

/-- It can be told where a new run begins, which is before what is asked for. -/
theorem seed?_eq_ok (cache : StyleCache) (position : Nat) :
    ∃ seed hint, cache.seed? text highlighter position = .ok (seed, hint) ∧
      ∀ run ∈ seed, run.Aligned highlighter.grammar text ∧ run.row.start ≤ position := by
  obtain ⟨id, _, -, -, -, -, starts⟩ :=
    stands.laid.exists_start (stands.maxDistance_eq patterned) position
  obtain ⟨-, seeded⟩ := starts cache
  refine ⟨_, id, seeded, fun run member => ?_⟩
  rw [Option.mem_def.mp member] at seeded
  exact stands.laid.seed?_spec seeded

/-- A run that begins before what is asked for serves the question. -/
theorem exists_serve {run : StyleRun} (aligned : run.Aligned highlighter.grammar text)
    (hint : Option BreakId) {start stop : Nat} (behind : run.row.start ≤ start) (ordered : start ≤ stop)
    (inside : stop ≤ text.size) :
    ∃ answer after, serve run hint text highlighter start stop
        (highlighter.config.farthest highlighter.grammar) = .ok (answer, after) ∧
      after.Stands text highlighter.grammar := by
  have distance := stands.admits.distance patterned
  obtain ⟨value, after, served⟩ := serve_of_fits stands.laid
    (by unfold Config.farthest; omega) aligned hint ordered inside behind
  refine ⟨_, after, served, ?_, fun plain => ?_⟩
  · exact serve_aligned stands.admits.wellFormed stands.admits.lawful.bounded stands.held aligned
      ordered inside served
  · rw [patterned] at plain
    cases plain

end Questions

/-- **Every question is answered**, and what is kept then is as it should be. -/
theorem styles_eq_ok (stands : highlighter.Stands text behind reached ahead)
    (kept : cache.Stands text highlighter.grammar) (position count : Nat) :
    ∃ answer after, cache.styles text highlighter position count = .ok (answer, after) ∧
      after.Stands text highlighter.grammar := by
  have ordered : min position text.size ≤ min (position + count) text.size := by omega
  unfold styles
  simp only [min_saturatingAdd stands.held.size_lt_maxSize.le]
  by_cases patterned : highlighter.grammar.hasPatterns = true
  · rw [if_neg (not_not.mpr patterned)]
    split
    · exact ⟨_, _, rfl, kept⟩
    · obtain ⟨reusable, reused, begins⟩ :=
        isReusable_eq_ok stands patterned kept.aligned (min position text.size)
      rw [stands.maxDistance_eq patterned, Fault.ok_bind, reused, Fault.ok_bind]
      split
      · rename_i run hint
        obtain ⟨other, member, behind⟩ := begins rfl
        cases member
        exact exists_serve stands patterned (kept.aligned run rfl) hint behind ordered
          (min_le_right _ _)
      · obtain ⟨seed, hint, seeded, spec⟩ :=
          seed?_eq_ok stands patterned cache (min position text.size)
        rw [seeded, Fault.ok_bind]
        cases seed with
        | none =>
          exact ⟨_, _, rfl, (fun _ member => nomatch member), fun _ => rfl⟩
        | some run =>
          obtain ⟨aligned, behind⟩ := spec run rfl
          exact exists_serve stands patterned aligned (some hint) behind ordered (min_le_right _ _)
  · rw [if_pos patterned]
    exact ⟨_, _, rfl, kept⟩

/-- An edit of the text can be told to the cache. -/
theorem edit_eq_ok (stands : highlighter.Stands text behind reached ahead)
    (kept : cache.Stands text highlighter.grammar) (edits : Text.Edits text edited change) :
    ∃ after, cache.edit change highlighter.grammar = .ok after := by
  unfold StyleCache.edit
  cases here : cache.run with
  | none => exact ⟨_, rfl⟩
  | some run =>
    have patterned : highlighter.grammar.hasPatterns = true := by
      refine Bool.not_eq_false _ ▸ fun plain => ?_
      rw [kept.plain plain] at here
      cases here
    have sum := stands.reach_le patterned
    have within := Text.le_size_of_isBoundary edits.back.left
    have aligned := kept.aligned run here
    have stop : run.row.stop ≤ text.size := aligned.stop.trans_le aligned.good.position_le
    unfold Highlighter.reach
    simp only [checkedAdd_eq_ok (show highlighter.grammar.maxExtend + 1 ≤ maxSize by omega),
      Fault.ok_bind,
      checkedAdd_eq_ok (show run.row.stop + (highlighter.grammar.maxExtend + 1) ≤ maxSize by omega),
      checkedAdd_eq_ok (show change.oldEnd + (highlighter.grammar.maxExtend + 1) ≤ maxSize by omega)]
    split
    · exact ⟨_, rfl⟩
    · split <;> exact ⟨_, rfl⟩

/-- **What the cache keeps after an edit** is as it should be for the new text. -/
theorem exists_edit (stands : highlighter.Stands text behind reached ahead)
    (kept : cache.Stands text highlighter.grammar) (edits : Text.Edits text edited change) :
    ∃ after, cache.edit change highlighter.grammar = .ok after ∧
      after.Stands edited highlighter.grammar := by
  obtain ⟨after, went⟩ := edit_eq_ok stands kept edits
  refine ⟨after, went, kept.aligned.edit edits went, fun plain => ?_⟩
  rw [Option.eq_none_iff_forall_not_mem]
  intro run member
  obtain ⟨old, before, -⟩ := edit_cases went member
  rw [kept.plain plain] at before
  cases before

end StyleCache

end Highlight
