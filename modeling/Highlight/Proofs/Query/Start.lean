/-
**Questions from the start of a text.**

A cache that keeps nothing begins a run at a break, and before the start of the text there is only the
first one, from which nothing is too far away:

* `Highlighter.Begins`: the search for a break before the start of the text finds the first one;
* `StyleCache.styles_start`: a question from there on is served by a run from the start of the text;
* `StyleCache.styles_whole`: **a question about the whole text is answered by a scan from its start**,
  wherever the regexes look.
-/

import Highlight.Proofs.Query.Answers

namespace Highlight

open BreakIndex (Entry)

variable {text : Text} {highlighter : Highlighter}

/-! ### The first break -/

namespace Highlighter

/-- The search for a break before the start of the text finds the first one. -/
structure Begins (highlighter : Highlighter) : Prop where
  found : highlighter.checkpointBefore none 0 = .ok BreakIndex.first
  first : highlighter.breaks.get BreakIndex.first = .ok Break.first

theorem begins_ofSize (grammar : Grammar) (config : Config) (size : Nat) :
    (ofSize grammar config size).Begins := ⟨rfl, rfl⟩

/-- Where breaks are spaced no other break is at the start of the text. -/
theorem Stands.begins {behind ahead : List Entry} {reached : Break}
    (stands : Stands text highlighter behind reached ahead) (spaced : 1 ≤ highlighter.config.spacing) :
    highlighter.Begins := by
  have starts := stands.placed.starts
  have begins : ∀ entry ∈ (behind ++ (highlighter.frontier, reached) :: ahead).head?,
      entry.2.position ≤ min 0 reached.position := by
    intro entry atHead
    rw [starts] at atHead
    cases atHead
    exact Nat.zero_le _
  obtain ⟨front, id, value, back, split, sought, before, -⟩ :=
    stands.holds.seekBefore_spec stands.placed.ordered begins none
  have placed := stands.placed
  rw [split] at placed starts
  have atStart : front = [] := by
    rw [List.eq_nil_iff_forall_not_mem]
    intro entry member
    have apart := placed.before entry member
    omega
  subst atStart
  cases starts
  refine ⟨?_, stands.holds.get_of_mem (split ▸ List.mem_cons_self)⟩
  unfold checkpointBefore
  rw [stands.frontierPosition_eq]
  exact sought

end Highlighter

namespace StyleCache

/-! ### Runs from the start of the text -/

/-- The run that begins with the text. -/
def fromStart : StyleRun := ⟨.empty 0, .initial, true⟩

theorem aligned_fromStart (grammar : Grammar) (text : Text) : fromStart.Aligned grammar text :=
  StyleRun.aligned_startingAt (Spot.good_initial grammar text).boundary
    (PatternStack.known_root grammar) true

/-- **A question from the start of the text on is served by a run from there.** -/
theorem styles_start (begins : highlighter.Begins) (patterned : highlighter.grammar.hasPatterns = true)
    {maxDistance : Nat}
    (distance : highlighter.config.maxDistance highlighter.grammar = .ok maxDistance)
    (small : text.size ≤ maxSize) {count : Nat} (some : 0 < min count text.size) :
    empty.styles text highlighter 0 count =
      serve fromStart (.some BreakIndex.first) text highlighter 0 (min count text.size)
        maxDistance := by
  have seeded : empty.seed? text highlighter 0 = .ok (.some fromStart, BreakIndex.first) := by
    unfold seed? seedFrom empty
    have near : (0 - Break.first.position ≤ maxDistance) := Nat.zero_le _
    simp only [begins.found, begins.first, Fault.ok_bind, distance,
      checkedSub_eq_ok (show Break.first.position ≤ 0 from le_rfl)]
    rw [if_pos (Or.inl near)]
    rfl
  have start : min 0 text.size = 0 := Nat.zero_min _
  have stop : min (saturatingAdd 0 count) text.size = min count text.size := by
    unfold saturatingAdd
    omega
  unfold styles
  simp only [start, stop, patterned, not_true_eq_false, if_false, some.ne, distance, Fault.ok_bind]
  show (isReusable empty highlighter 0 maxDistance >>= _) = _
  rw [show isReusable empty highlighter 0 maxDistance = .ok false from rfl, Fault.ok_bind]
  simp only [empty] at seeded ⊢
  rw [seeded]
  rfl

section Whole

variable {behind ahead : List Entry} {reached : Break}
  (stands : highlighter.Stands text behind reached ahead)
  (window : text.size + 4 * highlighter.config.spacing ≤ maxSize)
include stands window

/-- A scan from the start of the text goes well, and gives every byte a style. -/
theorem exists_scan_fromStart :
    ∃ styles final ending, (Scanner.ofUnit highlighter.grammar
        (max Config.minWindowUnit (4 * highlighter.config.spacing))).run text StyleRow.sink text.size
        .initial (.empty 0) = .ok (⟨0, styles⟩, final, ending) ∧ styles.size = text.size := by
  have small := stands.held.size_lt
  have aligned := aligned_fromStart highlighter.grammar text
  have ends := scan_ends stands.admits.wellFormed stands.admits.lawful.bounded stands.held aligned False
    (max Config.minWindowUnit (4 * highlighter.config.spacing)) text.size fun inside => Or.inl (by
      unfold Config.minWindowUnit maxSize at *
      omega)
  obtain ⟨⟨⟨start, styles⟩, final, ending⟩, ran, reachedEnd, further, starts⟩ :=
    ends.exists_ok id fun _ _ _ => ⟨_, rfl⟩
  have within := reachedEnd.stop.trans_le reachedEnd.good.position_le
  cases starts
  unfold StyleRow.stop at within further
  simp only [min_self] at within further
  refine ⟨styles, final, ending, ran, ?_⟩
  have none : fromStart.row.start = 0 := rfl
  omega

/-- A run from there answers a question about the whole text with all of its styles. -/
theorem serve_fromStart (patterned : highlighter.grammar.hasPatterns = true) (some : 0 < text.size)
    {all : Array StyleId} {final : ScanState} {ending : ScanEnd}
    (ran : (Scanner.ofUnit highlighter.grammar
        (max Config.minWindowUnit (4 * highlighter.config.spacing))).run text StyleRow.sink text.size
        .initial (.empty 0) = .ok (⟨0, all⟩, final, ending))
    (size : all.size = text.size) :
    ∃ after, serve fromStart (.some BreakIndex.first) text highlighter 0 text.size
      (3 * max highlighter.config.spacing highlighter.grammar.maxExtend) =
        .ok (.exact all, after) := by
  have distance := stands.admits.distance patterned
  have extended : extend fromStart text highlighter text.size = .ok ⟨⟨0, all⟩, final, true⟩ := by
    have unit := Config.windowUnit_eq
      (show 4 * highlighter.config.spacing ≤ maxSize by omega)
    have short : fromStart.row.stop < text.size := some
    unfold extend
    rw [if_pos short, unit, Fault.ok_bind]
    simp only [fromStart, ran, Fault.ok_bind]
    rfl
  have cutoff : 4 * (3 * max highlighter.config.spacing highlighter.grammar.maxExtend) ≤
      maxSize := by
    omega
  have atStart : StyleRow.start ⟨0, all⟩ ≤ 0 := le_rfl
  obtain ⟨shorter, trimmed⟩ : ∃ shorter, trim ⟨⟨0, all⟩, final, true⟩ 0
      (3 * max highlighter.config.spacing highlighter.grammar.maxExtend) = .ok shorter :=
    trim_eq_ok cutoff atStart
  have whole : shorter = ⟨⟨0, all⟩, final, true⟩ := by
    obtain ⟨cut, within, rfl⟩ := trim_cases trimmed
    obtain rfl := Nat.le_zero.mp within
    rw [Array.extract_size]
  subst whole
  have read : piece ⟨0, all⟩ 0 text.size = .ok all := by
    have within : text.size ≤ StyleRow.stop ⟨0, all⟩ := size.symm.trans_le (Nat.le_add_left _ _)
    unfold piece
    rw [if_pos ⟨le_rfl, Nat.zero_le _, within⟩, Nat.sub_zero, Nat.sub_zero, ← size,
      Array.extract_size]
  exact ⟨_, serve_eq_ok_iff.mpr ⟨_, _, all, extended, trimmed, read, rfl, rfl⟩⟩

/-- **A question about the whole text is answered by a scan from its start**, but for grammars without
patterns, for which nothing is scanned. -/
theorem styles_whole (spaced : 1 ≤ highlighter.config.spacing) :
    ∃ all after, highlighter.grammar.highlight text
          (max Config.minWindowUnit (4 * highlighter.config.spacing)) = .ok all ∧
      all.size = text.size ∧ empty.styles text highlighter 0 text.size =
        .ok (.exact (if highlighter.grammar.hasPatterns then all
          else Array.replicate text.size defaultStyle), after) := by
  obtain ⟨all, final, ending, ran, size⟩ := exists_scan_fromStart stands window
  have small := stands.held.size_lt
  have scanned : highlighter.grammar.highlight text
      (max Config.minWindowUnit (4 * highlighter.config.spacing)) = .ok all := by
    unfold Grammar.highlight
    rw [ran]
    rfl
  have stop : min (saturatingAdd 0 text.size) text.size = text.size := by
    unfold saturatingAdd maxSize
    omega
  cases patterned : highlighter.grammar.hasPatterns with
  | false =>
    refine ⟨all, empty, scanned, size, ?_⟩
    unfold styles
    simp only [patterned, Nat.zero_min, stop]
    rfl
  | true =>
    rcases Nat.eq_zero_or_pos text.size with none | some
    · refine ⟨all, empty, scanned, size, ?_⟩
      have nothing : all = #[] := Array.eq_empty_of_size_eq_zero (size.trans none)
      unfold styles
      simp only [patterned, Nat.zero_min, none, nothing]
      rfl
    · have question := styles_start (stands.begins spaced) patterned (stands.maxDistance_eq patterned)
        (by unfold maxSize; omega) (show 0 < min text.size text.size by omega)
      rw [min_self] at question
      obtain ⟨after, served⟩ := serve_fromStart stands window patterned some ran size
      exact ⟨all, after, scanned, size, question.trans served⟩

end Whole

end StyleCache

end Highlight
