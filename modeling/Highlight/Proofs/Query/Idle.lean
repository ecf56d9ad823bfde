/-
**Where nothing is left to process, every answer is exact.**

Whatever the regexes match, a run that is kept goes on where its styles end, and a guess is not used
where there is a break near enough:

* `StyleRun.Aligned`: a run whose scan is at the end of its styles;
* `StyleCache.Aligned.styles`, `StyleCache.Aligned.edit`: questions and edits keep the run so;
* `StyleCache.extend_eq_ok`, `StyleCache.serve_eq_ok`: a run serves a question that begins behind its
  start;
* `Highlighter.Spread.distance_le`: a break is near enough to begin a run at;
* `StyleCache.Aligned.exists_exact`: **any question is answered exactly**.
-/

import Highlight.Proofs.Highlighter.Spread
import Highlight.Proofs.Query.Cases
import Highlight.Proofs.Scan.Highlight

namespace Highlight

variable {grammar : Grammar} {text edited : Text} {change : Change}

/-! ### Rows -/

/-- Painting tokens keeps a row as long as the scan, whatever the regexes match. -/
theorem StyleRow.sink_stays {made : ScanState → Move → Prop} (makes : grammar.Makes text made)
    (start : Nat) :
    StyleRow.sink.Keeps grammar text made
      (fun row state => row.start = start ∧ row.stop = state.position) fun _ _ => False := by
  constructor
  · rintro row state move good ⟨starts, stops⟩ isMade silent
    exact ⟨starts, stops.trans ((makes.stride isMade).silent silent)⟩
  · rintro row state move token after flow good ⟨starts, stops⟩ isMade delivered taken
    cases taken
    obtain ⟨sound, tokenStart, tokenStop, -⟩ := (makes.stride isMade).token token delivered
    have behind := stops.trans tokenStart.symm
    refine ⟨?_, (row.stop_paint sound behind).trans tokenStop⟩
    rw [row.paint_append sound behind]
    exact starts

/-! ### Runs -/

/-- A run whose scan is at the end of its styles. -/
structure StyleRun.Aligned (grammar : Grammar) (text : Text) (run : StyleRun) : Prop where
  good : run.state.Good grammar text
  stop : run.row.stop = run.state.position

namespace StyleRun

variable {run : StyleRun}

theorem aligned_startingAt {position : Nat} {stack : PatternStack}
    (boundary : text.isBoundary position = true) (known : stack.Known grammar) (exact : Bool) :
    Aligned grammar text ⟨.empty position, .startingAt position stack, exact⟩ :=
  ⟨ScanState.good_startingAt boundary known, rfl⟩

theorem Aligned.start_le (aligned : run.Aligned grammar text) : run.row.start ≤ run.state.position := by
  rw [← aligned.stop]
  exact Nat.le_add_right _ _

/-- A run before an edit stays aligned. -/
theorem Aligned.before (aligned : run.Aligned grammar text) (edits : Text.Edits text edited change)
    (clear : run.row.stop ≤ change.start) : run.Aligned grammar edited := by
  have stop := aligned.stop
  refine ⟨⟨?_, aligned.good.known, aligned.good.emptyAt⟩, stop⟩
  exact (edits.front.isBoundary_eq (by omega)).symm.trans aligned.good.boundary

/-- A run behind an edit that is moved along stays aligned. -/
theorem Aligned.shift (aligned : run.Aligned grammar text) (edits : Text.Edits text edited change)
    (clear : change.oldEnd ≤ run.row.start) (exact : Bool) :
    Aligned grammar edited
      ⟨⟨shifted run.row.start change.delta, run.row.styles⟩, run.state.shift change.delta, exact⟩ := by
  have ordered := aligned.start_le
  have inside := aligned.good.position_le
  have moved : ∀ {position : Nat}, change.oldEnd ≤ position →
      shifted position change.delta = change.carry position := by
    intro position behind
    unfold Change.carry
    rw [if_pos behind]
  have start := edits.carry_behind clear (ordered.trans inside)
  have stop := edits.carry_behind (clear.trans ordered) inside
  have spot : (Break.mk run.state.position .inner run.state.stack).spot.Good grammar text :=
    ⟨aligned.good.boundary, aligned.good.known⟩
  have good := Break.good_carried edits spot (clear.trans ordered)
  refine ⟨⟨?_, aligned.good.known, fun place member => ?_⟩, ?_⟩
  · show edited.isBoundary (shifted run.state.position change.delta) = true
    rw [moved (clear.trans ordered)]
    exact good.boundary
  · obtain ⟨earlier, used, rfl⟩ := Option.mem_map.mp member
    have before := aligned.good.emptyAt earlier used
    show shifted earlier change.delta ≤ shifted run.state.position change.delta
    unfold shifted
    omega
  · have size := aligned.stop
    unfold StyleRow.stop at size ⊢
    show shifted run.row.start change.delta + run.row.styles.size =
      shifted run.state.position change.delta
    rw [moved clear, moved (clear.trans ordered)]
    omega

end StyleRun

namespace StyleCache

/-- The run that is kept is aligned. -/
def Aligned (grammar : Grammar) (text : Text) (cache : StyleCache) : Prop :=
  ∀ run ∈ cache.run, run.Aligned grammar text

theorem aligned_empty : Aligned grammar text .empty := fun _ member => nomatch member

/-! ### Questions -/

section Runs

variable {highlighter : Highlighter} {longest : Nat} {run after : StyleRun}
  (wellFormed : highlighter.grammar.WellFormed) (bounded : highlighter.grammar.Bounded longest)
  (held : text.Held) (aligned : run.Aligned highlighter.grammar text)

section Extend

include wellFormed bounded held aligned

/-- A scan goes on from an aligned run unless positions overflow, and keeps it so. -/
theorem scan_ends (overflow : Prop) (unit stop : Nat)
    (fits : run.state.position < text.size → run.state.position + max unit 1 ≤ maxSize ∨ overflow) :
    StyleRow.sink.Ends overflow (fun (row, final, _) =>
        StyleRun.Aligned highlighter.grammar text ⟨row, final, run.exact⟩ ∧
          min stop text.size ≤ row.stop ∧ row.start = run.row.start)
      ((Scanner.ofUnit highlighter.grammar unit).run text StyleRow.sink stop run.state run.row) := by
  have makes := Grammar.makes_stride wellFormed bounded held
  have positive := Scanner.unit_pos highlighter.grammar unit
  refine ((Scanner.ofUnit highlighter.grammar unit).run_ends makes held
    (StyleRow.sink_stays makes run.row.start) stop fits positive aligned.good
    ⟨rfl, aligned.stop⟩).mono ?_
  rintro ⟨row, final, ending⟩ ⟨good, ⟨⟨starts, stops⟩, further, -⟩ | ⟨never, -⟩⟩
  · exact ⟨⟨good, stops⟩, further.trans stops.ge, starts⟩
  · exact never.elim

theorem extend_aligned {stop : Nat} (inside : stop ≤ text.size)
    (went : extend run text highlighter stop = .ok after) :
    after.Aligned highlighter.grammar text ∧ stop ≤ after.row.stop ∧
      after.row.start = run.row.start ∧ after.exact = run.exact := by
  obtain ⟨reached, rfl⟩ | ⟨unit, row, final, ending, -, ran, rfl⟩ := extend_cases went
  · exact ⟨aligned, reached, rfl, rfl⟩
  · have ends := scan_ends wellFormed bounded held aligned True unit stop fun _ => Or.inr trivial
    rw [ran] at ends
    obtain ⟨alignedAfter, further, starts⟩ := ends
    rw [min_eq_left inside] at further
    exact ⟨alignedAfter, further, starts, rfl⟩

/-- A run can be scanned further, unless positions overflow. -/
theorem extend_eq_ok (fits : text.size + 4 * highlighter.config.spacing ≤ maxSize) (stop : Nat) :
    ∃ after, extend run text highlighter stop = .ok after := by
  have small := held.size_lt
  have window : highlighter.config.windowUnit =
      .ok (max Config.minWindowUnit (4 * highlighter.config.spacing)) := by
    unfold Config.windowUnit
    rw [Fault.bind_eq_ok]
    exact ⟨_, checkedMul_eq_ok (by omega), rfl⟩
  unfold extend
  split
  · have ends := scan_ends wellFormed bounded held aligned False
      (max Config.minWindowUnit (4 * highlighter.config.spacing)) stop fun inside => Or.inl (by
        unfold Config.minWindowUnit maxSize at *
        omega)
    obtain ⟨⟨row, final, ending⟩, ran, -⟩ := ends.exists_ok id fun _ _ _ => ⟨_, rfl⟩
    rcases run with ⟨runRow, state, exact⟩
    refine ⟨⟨row, final, exact⟩, ?_⟩
    simp only [window, Fault.bind_eq_ok]
    exact ⟨_, rfl, _, ran, rfl⟩
  · exact ⟨run, rfl⟩

end Extend

/-- What is left of a run that has been trimmed is aligned and ends where it did. -/
theorem trim_aligned {position maxDistance : Nat} (aligned : run.Aligned grammar text)
    (inside : position ≤ run.row.stop) (went : trim run position maxDistance = .ok after) :
    after.Aligned grammar text ∧ after.row.stop = run.row.stop ∧ after.exact = run.exact ∧
      (run.row.start ≤ position → after.row.start ≤ position) := by
  obtain ⟨cut, within, rfl⟩ := trim_cases went
  have stop : StyleRow.stop ⟨run.row.start + cut,
      run.row.styles.extract cut run.row.styles.size⟩ = run.row.stop := by
    unfold StyleRow.stop at inside ⊢
    simp only [Array.size_extract, min_self]
    omega
  refine ⟨⟨aligned.good, stop.trans aligned.stop⟩, stop, rfl, fun _ => ?_⟩
  show run.row.start + cut ≤ position
  omega

theorem trim_eq_ok {position maxDistance : Nat} (fits : 4 * maxDistance ≤ maxSize)
    (behind : run.row.start ≤ position) : ∃ after, trim run position maxDistance = .ok after := by
  unfold trim
  rw [checkedMul_eq_ok fits, Fault.ok_bind]
  split
  · exact ⟨_, rfl⟩
  · rw [checkedSub_eq_ok behind, Fault.ok_bind]
    exact ⟨_, rfl⟩

section Serve

variable {hint : Option BreakId} {start stop maxDistance : Nat} (ordered : start ≤ stop)
  (inside : stop ≤ text.size)
include wellFormed bounded held aligned ordered inside

/-- The run that has served a question is aligned. -/
theorem serve_aligned {answer : Answer (Array StyleId)} {cache : StyleCache}
    (went : serve run hint text highlighter start stop maxDistance = .ok (answer, cache)) :
    cache.Aligned highlighter.grammar text := by
  obtain ⟨longer, shorter, styles, extended, trimmed, -, -, rfl⟩ := serve_eq_ok_iff.mp went
  obtain ⟨alignedLonger, further, -⟩ :=
    extend_aligned wellFormed bounded held aligned inside extended
  intro other member
  cases member
  exact (trim_aligned alignedLonger (ordered.trans further) trimmed).1

/-- **A run serves a question that does not begin before it**, unless positions overflow. -/
theorem serve_eq_ok (fits : text.size + 4 * highlighter.config.spacing ≤ maxSize)
    (fitsToo : 4 * maxDistance ≤ maxSize) (behind : run.row.start ≤ start) :
    ∃ value cache, serve run hint text highlighter start stop maxDistance =
      .ok (if run.exact then .exact value else .approximate value, cache) := by
  obtain ⟨longer, extended⟩ := extend_eq_ok wellFormed bounded held aligned fits stop
  obtain ⟨alignedLonger, further, starts, same⟩ :=
    extend_aligned wellFormed bounded held aligned inside extended
  have behindLonger : longer.row.start ≤ start := starts.trans_le behind
  obtain ⟨shorter, trimmed⟩ := trim_eq_ok fitsToo behindLonger
  obtain ⟨-, stops, sameToo, begins⟩ := trim_aligned alignedLonger (ordered.trans further) trimmed
  obtain ⟨value, read⟩ : ∃ value, piece shorter.row start stop = .ok value := by
    unfold piece
    rw [if_pos ⟨begins behindLonger, ordered, further.trans stops.ge⟩]
    exact ⟨_, rfl⟩
  refine ⟨value, ⟨some shorter, hint⟩, serve_eq_ok_iff.mpr
    ⟨longer, shorter, value, extended, trimmed, read, ?_, rfl⟩⟩
  rw [sameToo, same]

end Serve

end Runs

/-- A run is aligned where it begins. -/
theorem seed?_aligned {highlighter : Highlighter} {behind ahead : List BreakIndex.Entry}
    {reached : Break} {demands : Demands}
    (charted : highlighter.Charted text demands behind reached ahead) {cache : StyleCache}
    {position : Nat} {run : StyleRun} {hint : BreakId}
    (went : cache.seed? text highlighter position = .ok (some run, hint)) :
    run.Aligned highlighter.grammar text := by
  obtain ⟨front, id, value, back, split, sought, found, -, -⟩ :=
    charted.checkpointBefore_spec cache.hint position
  have good : value.spot.Good highlighter.grammar text :=
    charted.tracks.good (id, value) (by rw [split]; simp)
  obtain ⟨soughtToo, checkpoint, foundToo, begins⟩ := seed?_cases went
  cases sought.symm.trans soughtToo
  cases found.symm.trans foundToo
  obtain rfl | ⟨place, ⟨boundary, -⟩, rfl⟩ := begins
  · exact StyleRun.aligned_startingAt good.boundary good.known true
  · exact StyleRun.aligned_startingAt boundary (PatternStack.known_root highlighter.grammar) false

/-- The run that is kept is aligned after a question, if it is where it begins. -/
theorem Aligned.answered {highlighter : Highlighter} {longest : Nat}
    (wellFormed : highlighter.grammar.WellFormed) (bounded : highlighter.grammar.Bounded longest)
    (held : text.Held) {cache after : StyleCache} (aligned : cache.Aligned highlighter.grammar text)
    (begins : ∀ {position run hint}, cache.seed? text highlighter position = .ok (some run, hint) →
      run.Aligned highlighter.grammar text) {position count : Nat} {answer : Answer (Array StyleId)}
    (went : cache.styles text highlighter position count = .ok (answer, after)) :
    after.Aligned highlighter.grammar text := by
  obtain ⟨-, rfl, -⟩ | ⟨-, rfl, -⟩ | ⟨run, hint, maxDistance, taken, served⟩ | ⟨-, none⟩ :=
    styles_cases held.size_lt_maxSize.le went
  · exact aligned
  · exact aligned
  · have runAligned : run.Aligned highlighter.grammar text := by
      rcases taken with kept | ⟨id, seeded⟩
      · exact aligned run kept
      · exact begins seeded
    exact serve_aligned wellFormed bounded held runAligned (by omega) (min_le_right _ _) served
  · intro run member
    rw [none] at member
    cases member

/-- The run that is kept is aligned after any question. -/
theorem Aligned.styles {highlighter : Highlighter} {longest : Grammar → Nat}
    {behind ahead : List BreakIndex.Entry} {reached : Break}
    (spread : highlighter.Spread text longest behind reached ahead) {cache after : StyleCache}
    (aligned : cache.Aligned highlighter.grammar text) {position count : Nat}
    {answer : Answer (Array StyleId)}
    (went : cache.styles text highlighter position count = .ok (answer, after)) :
    after.Aligned highlighter.grammar text :=
  aligned.answered spread.wellFormed spread.bounded spread.held (seed?_aligned spread.toCharted) went

/-! ### Edits and updates -/

/-- What an edit leaves of the run is aligned in the new text. -/
theorem Aligned.edit {cache after : StyleCache} (aligned : cache.Aligned grammar text)
    (edits : Text.Edits text edited change) (went : cache.edit change grammar = .ok after) :
    after.Aligned grammar edited := by
  intro run member
  obtain ⟨old, kept, ⟨clear, rfl⟩ | ⟨clear, rfl⟩⟩ := edit_cases went member
  · exact (aligned run kept).before edits (by omega)
  · exact (aligned old kept).shift edits (by omega) false

theorem Aligned.invalidate {cache : StyleCache} (aligned : cache.Aligned grammar text) (span : Span) :
    (cache.invalidate span).Aligned grammar text :=
  fun run member => aligned run (mem_invalidate member)

end StyleCache

/-! ### Nothing left to process -/

theorem BreakIndex.position_of_get {index : BreakIndex} {id : BreakId} {value : Break}
    (found : index.get id = .ok value) : index.position id = .ok value.position := by
  unfold get at found
  obtain ⟨node, here, same⟩ := Fault.bind_eq_ok.mp found
  cases same
  unfold position
  rw [here]
  rfl

section Idle

variable {highlighter : Highlighter} {behind ahead : List BreakIndex.Entry} {reached : Break}
  (spread : highlighter.Spread text Grammar.maxExtend behind reached ahead)
  (idle : highlighter.needsProcessing = false) (patterned : highlighter.grammar.hasPatterns = true)
include spread idle patterned

/-- **There is a break near enough to begin a run at**, before any position. -/
theorem Highlighter.Spread.distance_le (hint : Option BreakId) {position : Nat}
    (inside : position ≤ text.size) :
    ∃ id value, highlighter.checkpointBefore hint position = .ok id ∧
      highlighter.breaks.get id = .ok value ∧ value.spot.Good highlighter.grammar text ∧
      value.position ≤ position ∧ position - value.position ≤
        3 * max highlighter.config.spacing highlighter.grammar.maxExtend := by
  obtain ⟨id, value, sought, found, good, before, near⟩ :=
    spread.near_checkpointBefore idle patterned hint inside
  have spaced := spread.spaced
  refine ⟨id, value, sought, found, good, before, ?_⟩
  unfold Config.stride at near
  omega

namespace StyleCache

variable {cache : StyleCache} {position : Nat} (inside : position ≤ text.size)
  (fits : 3 * max highlighter.config.spacing highlighter.grammar.maxExtend ≤ maxSize)
include inside fits

/-- A run could begin at a break. -/
theorem canSeedExact_of_idle : cache.canSeedExact highlighter position = .ok true := by
  obtain ⟨id, value, sought, found, -, before, near⟩ :=
    spread.distance_le idle patterned cache.hint inside
  unfold canSeedExact Config.maxDistance
  rw [sought, Fault.ok_bind, checkedMul_eq_ok fits, Fault.ok_bind,
    BreakIndex.position_of_get found, Fault.ok_bind, checkedSub_eq_ok before, Fault.ok_bind]
  simp only [near, decide_true]
  rfl

/-- A run that is used again is no guess. -/
theorem isReusable_of_idle (aligned : cache.Aligned highlighter.grammar text) {maxDistance : Nat}
    (sum : text.size + maxDistance ≤ maxSize) :
    ∃ reusable, cache.isReusable highlighter position maxDistance = .ok reusable ∧
      (reusable = true → ∃ run ∈ cache.run, run.exact = true ∧ run.row.start ≤ position) := by
  unfold isReusable
  cases kept : cache.run with
  | none => exact ⟨false, rfl, fun reusable => nomatch reusable⟩
  | some run =>
    have runAligned := aligned run kept
    have stop : run.row.stop ≤ text.size := runAligned.stop.trans_le runAligned.good.position_le
    simp only
    by_cases beyond : position < run.row.start
    · rw [if_pos beyond]
      exact ⟨false, rfl, fun reusable => nomatch reusable⟩
    · rw [if_neg beyond, checkedAdd_eq_ok (by omega), Fault.ok_bind]
      by_cases far : run.row.stop + maxDistance < position
      · rw [if_pos far]
        exact ⟨false, rfl, fun reusable => nomatch reusable⟩
      · rw [if_neg far, canSeedExact_of_idle spread idle patterned inside fits, Fault.ok_bind]
        cases isExact : run.exact with
        | true => exact ⟨true, rfl, fun _ => ⟨run, rfl, isExact, not_lt.mp beyond⟩⟩
        | false => exact ⟨false, rfl, fun reusable => nomatch reusable⟩

/-- A new run begins at a break. -/
theorem seed?_of_idle :
    ∃ run hint, cache.seed? text highlighter position = .ok (some run, hint) ∧ run.exact = true ∧
      run.Aligned highlighter.grammar text ∧ run.row.start ≤ position := by
  obtain ⟨id, value, sought, found, good, before, near⟩ :=
    spread.distance_le idle patterned cache.hint inside
  have seeded : seedFrom text highlighter value position = .ok (some (.ofBreak value, true)) := by
    unfold seedFrom Config.maxDistance
    simp only
    rw [checkedSub_eq_ok before, Fault.ok_bind, checkedMul_eq_ok fits, Fault.ok_bind,
      if_pos (Or.inl near)]
    rfl
  refine ⟨⟨.empty value.position, .ofBreak value, true⟩, id, ?_, rfl,
    StyleRun.aligned_startingAt good.boundary good.known true, before⟩
  unfold seed?
  rw [sought, Fault.ok_bind, found, Fault.ok_bind, seeded, Fault.ok_bind]
  rfl

end StyleCache

end Idle

/-- **Where nothing is left to process any question is answered exactly**, unless positions
overflow. -/
theorem StyleCache.Aligned.exists_exact {highlighter : Highlighter}
    {behind ahead : List BreakIndex.Entry} {reached : Break}
    (spread : highlighter.Spread text Grammar.maxExtend behind reached ahead)
    (idle : highlighter.needsProcessing = false) {cache : StyleCache}
    (aligned : cache.Aligned highlighter.grammar text)
    (fits : 12 * max highlighter.config.spacing highlighter.grammar.maxExtend ≤ maxSize)
    (fitsToo : text.size + 4 * max highlighter.config.spacing highlighter.grammar.maxExtend ≤ maxSize)
    (position count : Nat) :
    ∃ value after, cache.styles text highlighter position count = .ok (.exact value, after) := by
  have small := spread.held.size_lt_maxSize.le
  have ordered : min position text.size ≤ min (position + count) text.size := by omega
  have inside : min position text.size ≤ text.size := min_le_right _ _
  have window : text.size + 4 * highlighter.config.spacing ≤ maxSize := by omega
  have cutoff : 4 * (3 * max highlighter.config.spacing highlighter.grammar.maxExtend) ≤ maxSize := by
    omega
  unfold StyleCache.styles Config.maxDistance
  simp only [min_saturatingAdd small]
  by_cases patterned : highlighter.grammar.hasPatterns = true
  · rw [if_neg (not_not.mpr patterned)]
    split
    · exact ⟨_, _, rfl⟩
    · obtain ⟨reusable, reused, spec⟩ := isReusable_of_idle spread idle patterned inside
        (by omega) aligned
        (show text.size + 3 * max highlighter.config.spacing highlighter.grammar.maxExtend ≤ maxSize
          by omega)
      rw [checkedMul_eq_ok (by omega), Fault.ok_bind, reused, Fault.ok_bind]
      split
      · rename_i kept hint
        obtain ⟨run, member, isExact, behind⟩ := spec rfl
        cases member
        obtain ⟨value, after, served⟩ := serve_eq_ok spread.wellFormed spread.bounded spread.held
          (aligned kept rfl) ordered (min_le_right _ _) window cutoff behind
        rw [if_pos isExact] at served
        exact ⟨value, after, served⟩
      · obtain ⟨run, hint, seeded, isExact, runAligned, behind⟩ :=
          seed?_of_idle spread idle patterned inside (by omega)
        obtain ⟨value, after, served⟩ := serve_eq_ok spread.wellFormed spread.bounded spread.held
          runAligned ordered (min_le_right _ _) window cutoff behind
        rw [if_pos isExact] at served
        rw [seeded, Fault.ok_bind]
        exact ⟨value, after, served⟩
  · rw [if_pos patterned]
    exact ⟨_, _, rfl⟩

end Highlight
