/-
**Caches that any operations have led to.**

A cache is kept in step with a text and its highlighter: it is told of every edit, and emptied where the
grammar changes. Nothing is asked of the settings, so that breaks need not be spaced and sizes may be too
large for some operations, as long as there are numbers for the breaks; of the regexes it is only known that
their matches lie in what was searched:

* `StyleCache.Reachable`: a text, its highlighter and its cache that operations have led to;
* `StyleCache.Reachable.laid`: **the breaks are in order**, and `StyleCache.Reachable.aligned`: **the scan
  of the run that is kept is at the end of its styles**.
-/

import Highlight.Proofs.Query.Answers

namespace Highlight

open BreakIndex (Entry)

variable {text edited : Text} {change : Change} {highlighter : Highlighter} {cache : StyleCache}
  {behind ahead : List Entry} {reached : Break}

namespace StyleCache

/-! ### Operations -/

/-- A text, its highlighter and a cache that edits, slices of work, questions and updates have led to. No
text gets too long to be held, and there are numbers for all slots of the index. A change of the grammar
leaves nothing in the cache. -/
inductive Reachable : Text → Highlighter → StyleCache → Prop where
  | fresh {text : Text} {grammar : Grammar} {config : Config} (held : text.Held)
      (wellFormed : grammar.WellFormed) (lawful : grammar.Lawful) :
      Reachable text (.ofSize grammar config text.size) .empty
  | edit {text edited : Text} {highlighter moved : Highlighter} {cache after : StyleCache}
      {start stop : Nat} {inserted : String} {change : Change}
      (before : Reachable text highlighter cache)
      (replaced : text.replace start stop inserted = .ok (edited, change))
      (small : edited.size < 2 ^ 63) (went : highlighter.edit change = .ok moved)
      (told : cache.edit change moved.grammar = .ok after) : Reachable edited moved after
  | process {text : Text} {highlighter worked : Highlighter} {cache : StyleCache}
      {deadline : Deadline} {scanned : Nat} (before : Reachable text highlighter cache)
      (went : highlighter.process text deadline = .ok (scanned, worked))
      (numbered : worked.breaks.Numbered) : Reachable text worked cache
  | setGrammar {text : Text} {highlighter : Highlighter} {cache : StyleCache} {grammar : Grammar}
      (before : Reachable text highlighter cache) (wellFormed : grammar.WellFormed)
      (lawful : grammar.Lawful) : Reachable text (highlighter.setGrammar grammar text.size) .empty
  | takeDirty {text : Text} {highlighter : Highlighter} {cache : StyleCache}
      (before : Reachable text highlighter cache) : Reachable text highlighter.takeDirty.2 cache
  | styles {text : Text} {highlighter : Highlighter} {cache after : StyleCache} {position count : Nat}
      {answer : Answer (Array StyleId)} (before : Reachable text highlighter cache)
      (asked : cache.styles text highlighter position count = .ok (answer, after)) :
      Reachable text highlighter after
  | invalidate {text : Text} {highlighter : Highlighter} {cache : StyleCache}
      (before : Reachable text highlighter cache) (span : Span) :
      Reachable text highlighter (cache.invalidate span)
  | reset {text : Text} {highlighter : Highlighter} {cache : StyleCache}
      (before : Reachable text highlighter cache) : Reachable text highlighter .empty

namespace Reachable

/-- The breaks of a highlighter are in order, and the run of its cache is aligned. -/
theorem keeps (reachable : Reachable text highlighter cache) :
    (∃ behind reached ahead, highlighter.Laid text behind reached ahead) ∧
      cache.Aligned highlighter.grammar text := by
  induction reachable with
  | fresh held wellFormed lawful =>
    exact ⟨⟨_, _, _, Highlighter.laid_ofSize held wellFormed lawful⟩, aligned_empty⟩
  | edit before replaced small went told ih =>
    obtain ⟨⟨behind, reached, ahead, laid⟩, aligned⟩ := ih
    have edits := Text.edits_of_replace laid.held small replaced
    obtain ⟨sameGrammar, -, kept⟩ :=
      laid.after_edit edits (Text.held_of_replace laid.held small replaced) went
    rw [sameGrammar] at told ⊢
    exact ⟨kept, aligned.edit edits told⟩
  | process before went numbered ih =>
    obtain ⟨⟨behind, reached, ahead, laid⟩, aligned⟩ := ih
    obtain ⟨sameGrammar, -, kept⟩ := laid.after_process went numbered
    rw [sameGrammar]
    exact ⟨kept, aligned⟩
  | setGrammar before wellFormed lawful ih =>
    obtain ⟨⟨behind, reached, ahead, laid⟩, -⟩ := ih
    exact ⟨⟨_, _, _, laid.setGrammar wellFormed lawful⟩, aligned_empty⟩
  | takeDirty before ih =>
    obtain ⟨⟨behind, reached, ahead, laid⟩, aligned⟩ := ih
    exact ⟨⟨behind, reached, ahead, laid.takeDirty⟩, aligned⟩
  | styles before asked ih =>
    obtain ⟨⟨behind, reached, ahead, laid⟩, aligned⟩ := ih
    exact ⟨⟨behind, reached, ahead, laid⟩,
      aligned.answered laid.wellFormed laid.lawful.bounded laid.held
        (fun begins => (laid.seed?_spec begins).1) asked⟩
  | invalidate before span ih => exact ⟨ih.1, ih.2.invalidate span⟩
  | reset before ih => exact ⟨ih.1, aligned_empty⟩

/-- **The breaks are in order**, and the frontier is one of them. -/
theorem laid (reachable : Reachable text highlighter cache) :
    ∃ behind reached ahead, highlighter.Laid text behind reached ahead := reachable.keeps.1

/-- **The scan of the run that is kept is at the end of its styles.** -/
theorem aligned (reachable : Reachable text highlighter cache) :
    cache.Aligned highlighter.grammar text := reachable.keeps.2

theorem style {after : StyleCache} {position : Nat} {answer : Answer StyleId}
    (reachable : Reachable text highlighter cache)
    (asked : cache.style text highlighter position = .ok (answer, after)) :
    Reachable text highlighter after := by
  obtain ⟨⟨row, rest⟩, went, same⟩ := Fault.bind_eq_ok.mp asked
  cases same
  exact reachable.styles went

end Reachable

end StyleCache

end Highlight
