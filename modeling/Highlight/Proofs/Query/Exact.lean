/-
**Exact answers are the styles of the text.**

A run that is exact holds a piece of the styles that the machine gives the text, and the scan behind it
is where the machine gets to:

* `StyleRun.Exact`: such a run; `StyleRun.exact_ofBreak` begins one;
* `StyleCache.serve_spec`: what is read from it is right, and what is left of it is exact again;
* `StyleCache.Sound.edit`: so is what an edit leaves of it;
* `StyleCache.styles_spec`: **an exact answer is the piece that was asked for**.
-/

import Highlight.Proofs.Highlighter.Trust
import Highlight.Proofs.Query.Cases

namespace Highlight

variable {grammar : Grammar} {text edited : Text} {change : Change}

/-! ### Exact runs -/

namespace StyleRun

/-- A run holds the styles of a walk from the start of the text, from some position on, and its scan
goes on where that walk ends. -/
structure Exact (grammar : Grammar) (text : Text) (run : StyleRun) : Prop where
  good : run.state.Good grammar text
  walk : ∃ styles, grammar.Walk text .initial styles run.state.spot ∧
    run.row.styles = (styles.drop run.row.start).toArray ∧ run.row.start ≤ styles.length

section Lawful

variable (wellFormed : grammar.WellFormed) (isLocal : grammar.Local) (held : text.Held)
include wellFormed isLocal held

/-- The run that begins at a break where the machine gets to is exact. -/
theorem exact_ofBreak {value : Break} (visited : value.Visited grammar text) :
    Exact grammar text ⟨.empty value.position, .ofBreak value, true⟩ := by
  have good := visited.good wellFormed isLocal held
  obtain ⟨styles, walk⟩ := visited
  have length : styles.length = value.position := walk.length_initial wellFormed isLocal held
  refine ⟨ScanState.good_startingAt good.boundary good.known, styles, walk, ?_, ?_⟩
  · show #[] = (styles.drop value.position).toArray
    rw [List.drop_of_length_le (by omega)]
  · show value.position ≤ styles.length
    omega

/-- The styles of an exact run end where its scan is. -/
theorem Exact.stop_eq {run : StyleRun} (exact : run.Exact grammar text) :
    run.row.stop = run.state.position := by
  obtain ⟨styles, walk, row, start⟩ := exact.walk
  have length : styles.length = run.state.position :=
    walk.length_initial wellFormed isLocal held
  unfold StyleRow.stop
  rw [row, List.size_toArray, List.length_drop]
  omega

/-- A run that an edit does not touch, and from which no regex sees it, is exact for the new text. -/
theorem Exact.before {run : StyleRun} (exact : run.Exact grammar text) (heldEdited : edited.Held)
    (edits : Text.Edits text edited change)
    (clear : run.row.stop + (grammar.maxExtend + 1) ≤ change.start) : run.Exact grammar edited := by
  have stop := exact.stop_eq wellFormed isLocal held
  obtain ⟨good, styles, walk, row, start⟩ := exact
  refine ⟨⟨?_, good.known, good.emptyAt⟩, styles, ?_, row, start⟩
  · exact (edits.front.isBoundary_eq (by omega)).symm.trans good.boundary
  · exact walk.before wellFormed isLocal held heldEdited edits.front (Spot.good_initial grammar text)
      (show run.state.position + grammar.maxExtend < change.start by omega)

end Lawful

end StyleRun

/-! ### Pieces of styles -/

theorem extract_toArray (styles : List StyleId) (start stop : Nat) :
    styles.toArray.extract start stop = ((styles.drop start).take (stop - start)).toArray := by
  rw [List.extract_toArray, List.extract_eq_take_drop]

theorem extract_toArray_size (styles : List StyleId) (start : Nat) :
    styles.toArray.extract start styles.toArray.size = (styles.drop start).toArray := by
  rw [extract_toArray, List.take_of_length_le]
  rw [List.size_toArray, List.length_drop]

/-- A piece of the end of some styles is a piece of them, also if there are more behind them. -/
theorem extract_drop_toArray (styles more : List StyleId) {start first last : Nat}
    (inside : start + last ≤ styles.length) :
    (styles.drop start).toArray.extract first last =
      (styles ++ more).toArray.extract (start + first) (start + last) := by
  rw [extract_toArray, extract_toArray, List.drop_drop, Nat.add_sub_add_left]
  by_cases ordered : first ≤ last
  · rw [List.drop_append_of_le_length (by omega), List.take_append_of_le_length]
    rw [List.length_drop]
    omega
  · rw [Nat.sub_eq_zero_of_le (by omega), List.take_zero, List.take_zero]

namespace StyleCache

/-- A piece of the styles that the machine gives a text. -/
def Shows (grammar : Grammar) (text : Text) (start stop : Nat) (value : Array StyleId) : Prop :=
  ∃ styles final, grammar.Walk text .initial styles final ∧ final.position = text.size ∧
    value = styles.toArray.extract start stop

/-- A run that is kept is exact if it says so. -/
def Sound (grammar : Grammar) (text : Text) (cache : StyleCache) : Prop :=
  ∀ run ∈ cache.run, run.exact = true → run.Exact grammar text

theorem sound_empty : Sound grammar text .empty := fun _ member => nomatch member

/-- What is left of an exact run that has been trimmed is exact. -/
theorem trim_spec {run after : StyleRun} {position maxDistance : Nat}
    (exact : run.exact = true → run.Exact grammar text ∧ position ≤ run.row.stop)
    (went : trim run position maxDistance = .ok after) :
    after.exact = run.exact ∧ (run.exact = true → after.Exact grammar text) := by
  obtain ⟨cut, within, rfl⟩ := trim_cases went
  refine ⟨rfl, fun isExact => ?_⟩
  obtain ⟨⟨good, styles, walk, row, start⟩, inside⟩ := exact isExact
  refine ⟨good, styles, walk, ?_, ?_⟩
  · show run.row.styles.extract cut run.row.styles.size = _
    rw [row, extract_toArray_size, List.drop_drop]
  · have size := congrArg Array.size row
    simp only [List.size_toArray, List.length_drop] at size
    unfold StyleRow.stop at inside
    show run.row.start + cut ≤ styles.length
    omega

section Lawful

variable {highlighter : Highlighter} (wellFormed : highlighter.grammar.WellFormed)
  (isLocal : highlighter.grammar.Local) (held : text.Held)
include wellFormed isLocal held

/-- What is read from an exact run are the styles of the text. -/
theorem piece_spec {run : StyleRun} (exact : run.Exact highlighter.grammar text) {start stop : Nat}
    {value : Array StyleId} (went : piece run.row start stop = .ok value) :
    Shows highlighter.grammar text start stop value := by
  obtain ⟨good, styles, walk, row, begins⟩ := exact
  obtain ⟨rest, final, further, -, ended⟩ :=
    Grammar.exists_walk_to_end wellFormed isLocal held good.spot
  unfold piece at went
  split at went
  · rename_i inside
    have size := congrArg Array.size row
    simp only [List.size_toArray, List.length_drop] at size
    unfold StyleRow.stop at inside
    cases went
    refine ⟨styles ++ rest, final, walk.trans further, ended, ?_⟩
    rw [row, extract_drop_toArray styles rest (by omega)]
    congr 1 <;> omega
  · cases went

/-- An exact run that has been scanned further is exact. -/
theorem extend_spec {run after : StyleRun} {stop : Nat} (inside : stop ≤ text.size)
    (exact : run.exact = true → run.Exact highlighter.grammar text)
    (went : extend run text highlighter stop = .ok after) :
    after.exact = run.exact ∧
      (run.exact = true → after.Exact highlighter.grammar text ∧ stop ≤ after.row.stop) := by
  obtain ⟨reached, rfl⟩ | ⟨unit, row, final, ending, -, ran, rfl⟩ := extend_cases went
  · exact ⟨rfl, fun isExact => ⟨exact isExact, reached⟩⟩
  · refine ⟨rfl, fun isExact => ?_⟩
    have before := exact isExact
    have inStep := before.stop_eq wellFormed isLocal held
    obtain ⟨good, styles, walk, painted, begins⟩ := before
    have positive := Scanner.unit_pos highlighter.grammar unit
    have grown := (Scanner.ofUnit highlighter.grammar unit).run_grown wellFormed isLocal held
      positive good run.row inStep True (fun _ => Or.inr trivial) stop
    rw [ran] at grown
    obtain ⟨goodAfter, further, -, start, stops, rest, walked, added⟩ := grown
    refine ⟨⟨goodAfter, styles ++ rest, walk.trans walked, ?_, ?_⟩, ?_⟩
    · show row.styles = _
      rw [added, painted, start, List.drop_append_of_le_length begins, List.append_toArray]
    · show row.start ≤ _
      rw [start, List.length_append]
      exact begins.trans (Nat.le_add_right _ _)
    · show stop ≤ row.stop
      rw [stops]
      omega

/-- **What is read from an exact run is right, and it is exact again.** -/
theorem serve_spec {run : StyleRun} {hint : Option BreakId} {start stop maxDistance : Nat}
    (ordered : start ≤ stop) (inside : stop ≤ text.size)
    (exact : run.exact = true → run.Exact highlighter.grammar text)
    {answer : Answer (Array StyleId)} {after : StyleCache}
    (went : serve run hint text highlighter start stop maxDistance = .ok (answer, after)) :
    (∀ value, answer = .exact value → Shows highlighter.grammar text start stop value) ∧
      after.Sound highlighter.grammar text := by
  obtain ⟨longer, shorter, styles, extended, trimmed, read, rfl, rfl⟩ := serve_eq_ok_iff.mp went
  obtain ⟨same, exactLonger⟩ := extend_spec wellFormed isLocal held inside exact extended
  obtain ⟨sameToo, exactShorter⟩ := trim_spec (fun isExact =>
    ⟨(exactLonger (same ▸ isExact)).1, ordered.trans (exactLonger (same ▸ isExact)).2⟩) trimmed
  constructor
  · intro value answered
    split at answered
    · rename_i isExact
      cases answered
      exact piece_spec wellFormed isLocal held (exactShorter (sameToo ▸ isExact)) read
    · cases answered
  · intro run member isExact
    cases member
    exact exactShorter (sameToo ▸ isExact)

end Lawful

section Seeds

variable {kept : Break → Prop} {highlighter : Highlighter} {behind ahead : List BreakIndex.Entry}
  {reached : Break} (sound : highlighter.Sound text kept behind reached ahead)
include sound

/-- A run that begins at a break that is known to fit the text is exact. -/
theorem seed?_spec {cache : StyleCache} {position : Nat} {run : StyleRun} {hint : BreakId}
    (went : cache.seed? text highlighter position = .ok (some run, hint))
    (isExact : run.exact = true) : run.Exact highlighter.grammar text := by
  obtain ⟨id, value, found, there, before, visited⟩ :=
    sound.visited_checkpointBefore cache.hint position
  obtain ⟨same, checkpoint, known, begins⟩ := seed?_cases went
  cases found.symm.trans same
  cases there.symm.trans known
  obtain rfl | ⟨place, boundary, rfl⟩ := begins
  · exact StyleRun.exact_ofBreak sound.wellFormed sound.isLocal sound.held visited
  · cases isExact

/-- **An exact answer is the piece of the styles that was asked for**, if the grammar is blank where
it has no patterns. -/
theorem styles_spec {cache after : StyleCache} (cached : cache.Sound highlighter.grammar text)
    {position count : Nat} {answer : Answer (Array StyleId)}
    (went : cache.styles text highlighter position count = .ok (answer, after)) :
    (highlighter.grammar.IsBlank → ∀ value, answer = .exact value →
        Shows highlighter.grammar text (min position text.size) (min (position + count) text.size)
          value) ∧
      after.Sound highlighter.grammar text := by
  obtain ⟨styles, final, walk, good, ended⟩ := Grammar.exists_walk_to_end sound.wellFormed
    sound.isLocal sound.held (Spot.good_initial highlighter.grammar text)
  have length := walk.length_initial sound.wellFormed sound.isLocal sound.held
  obtain ⟨plain, rfl, rfl⟩ | ⟨nothing, rfl, rfl⟩ | ⟨run, hint, maxDistance, begins, served⟩ |
    ⟨rfl, none⟩ := styles_cases sound.held.size_lt_maxSize.le went
  · -- Without patterns all bytes are said to have the default style.
    refine ⟨fun blank value answered => ?_, cached⟩
    cases answered
    refine ⟨styles, final, walk, ended, ?_⟩
    rw [blank.walk sound.wellFormed sound.isLocal plain sound.held walk ended, extract_toArray,
      List.drop_replicate, List.take_replicate, List.toArray_replicate]
    congr 1
    omega
  · refine ⟨fun _ value answered => ?_, cached⟩
    cases answered
    refine ⟨styles, final, walk, ended, ?_⟩
    rw [nothing, extract_toArray, Nat.sub_self, List.take_zero]
  · have exact : run.exact = true → run.Exact highlighter.grammar text := by
      rcases begins with kept | ⟨id, seeded⟩
      · exact cached run kept
      · exact seed?_spec sound seeded
    exact (serve_spec sound.wellFormed sound.isLocal sound.held (by omega) (min_le_right _ _) exact
      served).imp_left fun right _ => right
  · refine ⟨fun _ value answered => (nomatch answered), fun run member => ?_⟩
    rw [none] at member
    cases member

end Seeds

/-! ### Edits and updates -/

/-- **What an edit leaves of the cache is exact for the new text if it says so.** -/
theorem Sound.edit {cache after : StyleCache} (cached : cache.Sound grammar text)
    (wellFormed : grammar.WellFormed) (isLocal : grammar.Local) (held : text.Held)
    (heldEdited : edited.Held) (edits : Text.Edits text edited change)
    (went : cache.edit change grammar = .ok after) : after.Sound grammar edited := by
  intro run member isExact
  obtain ⟨old, kept, ⟨clear, rfl⟩ | ⟨-, rfl⟩⟩ := edit_cases went member
  · exact (cached run kept isExact).before wellFormed isLocal held heldEdited edits clear
  · cases isExact

theorem Sound.invalidate {cache : StyleCache} (cached : cache.Sound grammar text) (span : Span) :
    (cache.invalidate span).Sound grammar text :=
  fun run member => cached run (mem_invalidate member)

end StyleCache

end Highlight
