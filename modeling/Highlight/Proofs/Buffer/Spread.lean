/-
**What is true of a buffer whatever its regexes match.**

Only the length of matches is known of the grammars, and that matches lie in what was searched:

* `Buffer.ReachableUnder.spread`: the breaks of a buffer are in order and not too far apart;
* `Buffer.ReachableUnder.process_of_short`: **there always are numbers for the breaks of a text that is not
  too long**;
* `Buffer.ReachableUnder.breaks_ordered`: **the breaks are in order between characters of the text, and
  the frontier is one of them**;
* `Buffer.ReachableUnder.exists_exact_of_idle`: **where nothing is left to process any question is
  answered exactly**.
-/

import Highlight.Proofs.Buffer.Reachable
import Highlight.Proofs.Highlighter.Reachable
import Highlight.Proofs.Query.Idle

namespace Highlight.Buffer

/-- The breaks of a buffer are in order and not too far apart, and the run of its cache is
aligned. -/
structure Spread (longest : Grammar → Nat) (buffer : Buffer) : Prop where
  highlighter : ∃ behind reached ahead,
    buffer.highlighter.Spread buffer.text longest behind reached ahead
  cache : buffer.cache.Aligned buffer.grammar buffer.text

variable {admitted : Grammar → Prop} {longest : Grammar → Nat} {buffer after : Buffer}

/-! ### Operations -/

namespace Spread

theorem replace (spread : buffer.Spread longest) {start stop : Nat} {inserted : String}
    {change : Change} (small : after.size < 2 ^ 63)
    (went : buffer.replace start stop inserted = .ok (change, after)) : after.Spread longest := by
  obtain ⟨⟨behind, reached, ahead, highlighter⟩, cache⟩ := spread
  obtain ⟨replaced, edited, kept⟩ := replace_eq_ok went
  have edits := Text.edits_of_replace highlighter.held small replaced
  have held := Text.held_of_replace highlighter.held small replaced
  obtain ⟨same, spreadAfter⟩ := highlighter.edit edits held edited
  change after.grammar = buffer.grammar at same
  rw [same] at kept
  refine ⟨spreadAfter, ?_⟩
  rw [same]
  exact cache.edit edits kept

theorem process (spread : buffer.Spread longest) {deadline : Deadline} {scanned : Nat}
    (went : buffer.process deadline = .ok (scanned, after))
    (numbered : after.highlighter.breaks.Numbered) : after.Spread longest := by
  obtain ⟨⟨behind, reached, ahead, highlighter⟩, cache⟩ := spread
  obtain ⟨processed, sameText, sameCache⟩ := process_eq_ok went
  obtain ⟨same, spreadAfter⟩ := highlighter.process processed numbered
  change after.grammar = buffer.grammar at same
  refine ⟨sameText ▸ spreadAfter, ?_⟩
  rw [same, sameText, sameCache]
  exact cache

/-- A question only changes the cache. -/
theorem answered (spread : buffer.Spread longest) {position count : Nat}
    {answer : Answer (Array StyleId)}
    (asked : buffer.cache.styles buffer.text buffer.highlighter position count =
      .ok (answer, after.cache)) (sameText : after.text = buffer.text)
    (same : after.highlighter = buffer.highlighter) : after.Spread longest := by
  obtain ⟨⟨behind, reached, ahead, highlighter⟩, cache⟩ := spread
  have kept := cache.styles highlighter asked
  refine ⟨⟨behind, reached, ahead, ?_⟩, ?_⟩
  · rw [same, sameText]
    exact highlighter
  · unfold grammar
    rw [same, sameText]
    exact kept

theorem flush (spread : buffer.Spread longest) : buffer.flush.2.2.Spread longest := by
  obtain ⟨⟨behind, reached, ahead, highlighter⟩, cache⟩ := spread
  refine ⟨⟨behind, reached, ahead, ?_⟩, ?_⟩
  · rw [highlighter_flush, text_flush]
    exact highlighter.takeDirty
  · rw [grammar_flush, text_flush]
    exact cache_flush cache cache.invalidate

end Spread

/-! ### All operations -/

/-- **Operations keep the breaks in order and near enough**, if the length of the matches of every
admitted grammar is known. -/
theorem ReachableUnder.spread (reachable : buffer.ReachableUnder admitted)
    (known : ∀ grammar, admitted grammar →
      grammar.WellFormed ∧ grammar.Bounded (longest grammar)) : buffer.Spread longest := by
  induction reachable with
  | ofText held isAdmitted spaced =>
    obtain ⟨wellFormed, bounded⟩ := known _ isAdmitted
    exact ⟨⟨_, _, _, Highlighter.spread_ofSize wellFormed bounded held spaced⟩,
      StyleCache.aligned_empty⟩
  | replace before small went ih => exact ih.replace small went
  | process before went numbered ih => exact ih.process went numbered
  | styles before went ih =>
    obtain ⟨asked, sameText, same⟩ := styles_eq_ok went
    exact ih.answered asked sameText same
  | style before went ih =>
    obtain ⟨⟨row, asked⟩, sameText, same⟩ := style_eq_ok went
    exact ih.answered asked sameText same
  | flush before ih => exact ih.flush
  | setGrammar before isAdmitted ih =>
    obtain ⟨wellFormed, bounded⟩ := known _ isAdmitted
    obtain ⟨behind, reached, ahead, highlighter⟩ := ih.highlighter
    exact ⟨⟨_, _, _, highlighter.setGrammar wellFormed bounded⟩, StyleCache.aligned_empty⟩
  | listen before ih => exact ⟨ih.highlighter, ih.cache⟩
  | unlisten id before ih => exact ⟨ih.highlighter, ih.cache⟩

/-! ### Numbers -/

/-- **There always are numbers for the breaks of a text that is not too long.** -/
theorem ReachableUnder.process_of_short (reachable : buffer.ReachableUnder admitted)
    (known : ∀ grammar, admitted grammar → grammar.WellFormed ∧ grammar.Lawful)
    (short : buffer.size < 2 ^ 32) {deadline : Deadline} {scanned : Nat}
    (went : buffer.process deadline = .ok (scanned, after)) : after.ReachableUnder admitted := by
  have spread : buffer.Spread fun _ => maxSize :=
    reachable.spread fun grammar isAdmitted =>
      ⟨(known grammar isAdmitted).1, (known grammar isAdmitted).2.bounded⟩
  obtain ⟨behind, reached, ahead, highlighter⟩ := spread.highlighter
  exact .process reachable went (highlighter.laid.slots_of_process highlighter.spaced short le_rfl
    reachable.numbered (process_eq_ok went).1)

/-! ### Brackets -/

/-- A text with brackets, of which a part has been processed and asked for, and which has been edited
then. What is left is processed in one go. -/
theorem exists_edited_brackets (admitted : Grammar → Prop) (isAdmitted : admitted .brackets) :
    ∃ buffer : Buffer, ∃ scanned after, buffer.ReachableUnder admitted ∧
      buffer.text = .ofString "a(bc)" ∧ buffer.needsProcessing = true ∧
      buffer.process .never = .ok (scanned, after) ∧ after.highlighter.breaks.Numbered ∧
      after.needsProcessing = false ∧ after.highlighter.config.spacing = 1 ∧
      after.grammar.maxExtend = 1 := by
  have run : (do
      let worked ← (ofText (.ofString "a(b)") .brackets ⟨1, 1024⟩).process .expired
      let asked ← worked.2.styles 0 1
      let highlighter ← asked.2.highlighter.edit ⟨3, 3, 1⟩
      let cache ← asked.2.cache.edit ⟨3, 3, 1⟩ highlighter.grammar
      let after ← process { asked.2 with
        text := .ofString "a(bc)", highlighter := highlighter, cache := cache } .never
      return (highlighter.needsProcessing, after.2.needsProcessing,
        after.2.highlighter.config.spacing, after.2.grammar.maxExtend,
        decide worked.2.highlighter.breaks.Numbered, decide after.2.highlighter.breaks.Numbered)) =
        (.ok (true, false, 1, 1, true, true) :
          Except Fault (Bool × Bool × Nat × Nat × Bool × Bool)) := by
    decide +kernel
  obtain ⟨⟨scanned, worked⟩, processed, run⟩ := Fault.bind_eq_ok.mp run
  obtain ⟨⟨first, asked⟩, answered, run⟩ := Fault.bind_eq_ok.mp run
  obtain ⟨highlighter, edited, run⟩ := Fault.bind_eq_ok.mp run
  obtain ⟨cache, kept, run⟩ := Fault.bind_eq_ok.mp run
  obtain ⟨⟨further, after⟩, processedToo, run⟩ := Fault.bind_eq_ok.mp run
  simp only [Fault.pure_eq_ok, Prod.mk.injEq, decide_eq_true_eq] at run
  obtain ⟨pending, idle, spacing, maxExtend, numbered, numberedAfter⟩ := run
  have fresh : ReachableUnder admitted (ofText (.ofString "a(b)") .brackets ⟨1, 1024⟩) :=
    .ofText Text.held_brackets isAdmitted (by decide)
  have sameText : asked.text = .ofString "a(b)" :=
    (styles_eq_ok answered).2.1.trans (process_eq_ok processed).2.1
  have replaced := replace_of_parts (sameText ▸ Text.replace_brackets) edited kept
  have small : (Text.ofString "a(bc)").size < 2 ^ 63 := by decide
  have reachable := ReachableUnder.replace ((fresh.process processed numbered).styles answered)
    (show Buffer.size { asked with
      text := .ofString "a(bc)", highlighter := highlighter, cache := cache } < 2 ^ 63 from small)
    replaced
  exact ⟨_, further, after, reachable, rfl, pending, processedToo, numberedAfter, idle, spacing,
    maxExtend⟩

/-! ### Breaks and answers -/

/-- **The breaks are in order between characters of the text, and the frontier is one of them**, after
any operations and whatever the regexes match. -/
theorem ReachableUnder.breaks_ordered
    (reachable : buffer.ReachableUnder fun grammar => grammar.WellFormed ∧ grammar.Lawful) :
    buffer.highlighter.Ordered buffer.text := by
  have spread : buffer.Spread fun _ => maxSize :=
    reachable.spread fun _ known => ⟨known.1, known.2.bounded⟩
  obtain ⟨behind, reached, ahead, highlighter⟩ := spread.highlighter
  exact highlighter.ordered

theorem breaks_ordered_brackets :
    ∃ buffer : Buffer, (buffer.ReachableUnder fun grammar => grammar.WellFormed ∧ grammar.Lawful) ∧
      buffer.text = .ofString "a(bc)" ∧ buffer.needsProcessing = true ∧
      buffer.highlighter.Ordered buffer.text := by
  obtain ⟨buffer, scanned, after, reachable, sameText, pending, -⟩ :=
    exists_edited_brackets (fun grammar => grammar.WellFormed ∧ grammar.Lawful)
      ⟨Grammar.wellFormed_brackets, Grammar.lawful_brackets⟩
  exact ⟨buffer, reachable, sameText, pending, reachable.breaks_ordered⟩

/-- **Where nothing is left to process any question is answered exactly**, after any operations, if no
match is longer than what the grammar says and positions do not overflow. -/
theorem ReachableUnder.exists_exact_of_idle
    (reachable : buffer.ReachableUnder fun grammar =>
      grammar.WellFormed ∧ grammar.Bounded grammar.maxExtend)
    (idle : buffer.needsProcessing = false)
    (fits : 12 * max buffer.highlighter.config.spacing buffer.grammar.maxExtend ≤ maxSize)
    (fitsToo : buffer.size + 4 * max buffer.highlighter.config.spacing buffer.grammar.maxExtend ≤
      maxSize) (position count : Nat) :
    ∃ value after, buffer.styles position count = .ok (.exact value, after) := by
  have spread : buffer.Spread Grammar.maxExtend := reachable.spread fun _ known => known
  obtain ⟨⟨behind, reached, ahead, highlighter⟩, cache⟩ := spread
  obtain ⟨value, after, answered⟩ := cache.exists_exact highlighter idle fits fitsToo position count
  rcases buffer with ⟨text, other, cache, listeners, nextListener⟩
  refine ⟨value, ⟨text, other, after, listeners, nextListener⟩, ?_⟩
  unfold Buffer.styles
  simp only at answered ⊢
  rw [answered, Fault.ok_bind]
  rfl

theorem exists_exact_of_idle_brackets :
    ∃ buffer : Buffer, (buffer.ReachableUnder fun grammar =>
        grammar.WellFormed ∧ grammar.Bounded grammar.maxExtend) ∧
      buffer.text = .ofString "a(bc)" ∧ buffer.needsProcessing = false ∧
      ∃ value after, buffer.styles 1 3 = .ok (.exact value, after) := by
  obtain ⟨buffer, scanned, after, reachable, sameText, -, processed, numbered, idle, spacing, maxExtend⟩ :=
    exists_edited_brackets (fun grammar => grammar.WellFormed ∧ grammar.Bounded grammar.maxExtend)
      ⟨Grammar.wellFormed_brackets, Grammar.bounded_brackets⟩
  have sameAfter : after.text = .ofString "a(bc)" := (process_eq_ok processed).2.1.trans sameText
  have reachableAfter := reachable.process processed numbered
  have fits : 12 * max after.highlighter.config.spacing after.grammar.maxExtend ≤ maxSize := by
    rw [spacing, maxExtend]
    decide
  have fitsToo : after.size + 4 * max after.highlighter.config.spacing after.grammar.maxExtend ≤
      maxSize := by
    unfold size
    rw [spacing, maxExtend, sameAfter]
    decide
  exact ⟨after, reachableAfter, sameAfter, idle,
    reachableAfter.exists_exact_of_idle idle fits fitsToo 1 3⟩

end Highlight.Buffer
