/-
**What is printed of a file.**

A file is highlighted a slice at a time, and then all of its styles are asked for at once. That question
begins at the start of the text, so that it is answered by a scan from there, whichever checkpoints there
are and whatever was left over when the time of a slice was up:

* `Arguments.Asks`: a request to highlight a file with the grammars of some files;
* `Arguments.settle_eq_ok`: slices of work come to an end before they can no longer be counted;
* `Arguments.highlight_eq_ok`: a text is highlighted, and nothing can be in the way;
* `Arguments.run_prints`: **the lines are the runs of a scan of the whole text**, just if a grammar without
  patterns gives it the default style, which it does if there are numbers for all of its patterns.
-/

import Highlight.Proofs.Buffer.Operations
import Highlight.Proofs.Grammar.Gaps
import Highlight.Proofs.Grammar.Registry
import Highlight.Proofs.Query.Start
import Highlight.Proofs.Scan.Blank
import Highlight.Proofs.Scan.Spans
import Highlight.CommandLine.Run

namespace Highlight.Arguments

open StyledSpan (Tiles expand)

variable {arguments : Arguments} {libraries : Libraries} {read : String → Option ByteArray}
  {registry : Registry} {file : String} {text : Text} {grammar : Grammar}

/-! ### Requests -/

/-- A request to highlight a file, which holds `text`, with grammar files, all of which can be loaded;
`grammar` is the one among them for its language. -/
structure Asks (arguments : Arguments) (libraries : Libraries) (read : String → Option ByteArray)
    (registry : Registry) (file : String) (text : Text) (grammar : Grammar) : Prop where
  noArchive : arguments.registry = .none
  noDump : arguments.dump = .none
  named : arguments.file = some file
  loaded : arguments.loadRegistry libraries read = .ok registry
  content : textOf (read file) = .ok text
  selected : registry.getOrPlain (arguments.languageOf file) = grammar

theorem compiled_loadRegistry (noArchive : arguments.registry = .none)
    (went : arguments.loadRegistry libraries read = .ok registry) :
    registry.Compiled libraries.engine := by
  unfold loadRegistry at went
  rw [noArchive] at went
  obtain ⟨added, loaded, went⟩ := Fault.bind_eq_ok.mp went
  have compiled := Registry.compiled_empty.foldlM_addFile loaded
  simp only at went
  split at went
  · cases went
    exact compiled
  · exact compiled.addPlain went

theorem isUtf8_textOf {content : Option ByteArray} (went : textOf content = .ok text) : text.IsUtf8 := by
  unfold textOf at went
  split at went
  · cases went
    exact Text.isUtf8_ofString _
  · cases went

/-- The spacing that is asked for is used, but for zero, which is taken for one. -/
theorem spacing_config (arguments : Arguments) :
    arguments.config.spacing = max (arguments.spacing.getD Config.usual.spacing) 1 := by
  unfold config
  cases arguments.spacing <;> rfl

/-! ### Highlighting -/

/-- Where nothing is left to do, no further slice is counted. -/
theorem settle_of_idle {deadline : Nat → Deadline} {buffer : Buffer} (idle : buffer.needsProcessing = false)
    (limit slices : Nat) : settle deadline (limit + 1) slices buffer = .ok (slices, buffer) := by
  rw [settle, if_neg (by rw [idle]; exact Bool.false_ne_true)]
  rfl

/-- Where something is left to do, a slice is counted that goes well. -/
theorem settle_of_process {deadline : Nat → Deadline} {buffer next : Buffer} {slices scanned : Nat}
    (working : buffer.needsProcessing = true)
    (processed : buffer.process (deadline slices) = .ok (scanned, next)) (inRange : slices < maxSlices)
    (limit : Nat) :
    settle deadline (limit + 1) slices buffer = settle deadline limit (slices + 1) next := by
  rw [settle, if_pos working, processed, Fault.ok_bind]
  exact if_pos inRange

/-- **Slices of work come to an end before they can no longer be counted**, if breaks are spaced: each
advances the frontier, of which so many bytes are left. -/
theorem settle_eq_ok {config : Config} {buffer : Buffer} {limit slices reached : Nat}
    (deadline : Nat → Deadline) (spaced : 0 < config.spacing) (stands : buffer.Stands config)
    (here : buffer.highlighter.frontierPosition = .ok reached) (short : buffer.size < BreakIndex.idRange)
    (enough : buffer.size + 2 ≤ reached + limit)
    (counted : slices + buffer.size + 1 ≤ reached + maxSlices) :
    ∃ count after, settle deadline limit slices buffer = .ok (count, after) ∧ after.Stands config ∧
      buffer.Alike after := by
  induction limit generalizing buffer slices reached with
  | zero =>
    have inside := stands.frontier_le here
    omega
  | succ limit ih =>
    have inside := stands.frontier_le here
    cases working : buffer.needsProcessing with
    | false => exact ⟨slices, buffer, settle_of_idle working limit slices, stands, .refl buffer⟩
    | true =>
      obtain ⟨⟨scanned, next⟩, processed, standsNext, alike, -, -, left⟩ :=
        (stands.process here short (deadline slices) fun _ => .inl ⟨spaced, le_rfl⟩).exists_ok
          fun fault stalls => spaced.ne' stalls.1
      have sameSize : next.size = buffer.size := congrArg Text.size alike.text
      have inRange : slices < maxSlices := by omega
      rw [settle_of_process working processed inRange]
      cases workingNext : next.needsProcessing with
      | false =>
        obtain ⟨fewer, rfl⟩ := Nat.exists_eq_add_of_le' (show 1 ≤ limit by omega)
        exact ⟨slices + 1, next, settle_of_idle workingNext fewer _, standsNext, alike⟩
      | true =>
        obtain ⟨-, further, hereNext, advanced⟩ := left workingNext
        have countedNext : slices + 1 + next.size + 1 ≤ further + maxSlices := by omega
        obtain ⟨count, after, settled, standsAfter, alikeAfter⟩ := ih standsNext hereNext
          (sameSize.trans_lt short) (by omega) countedNext
        exact ⟨count, after, settled, standsAfter, alike.trans alikeAfter⟩

/-- What the whole text is said to be styled like. -/
def shown (grammar : Grammar) (text : Text) (all : Array StyleId) : Array StyleId :=
  if grammar.hasPatterns then all else Array.replicate text.size defaultStyle

/-- **A text is highlighted**, whatever the deadlines are: work comes to an end, and the styles are known
exactly then. -/
theorem highlight_eq_ok (held : text.Held) (short : text.size < maxSlices)
    (admits : arguments.config.Admits grammar)
    (window : text.size + 4 * arguments.config.spacing ≤ maxSize) (deadline : Nat → Deadline) :
    ∃ all summary, grammar.highlight text
          (max Config.minWindowUnit (4 * arguments.config.spacing)) = .ok all ∧
      all.size = text.size ∧ arguments.highlight text grammar deadline =
        .ok (.highlighted ((StyledSpan.runs (shown grammar text all).toList).map
          fun run => (run, grammar.styleName run.style)) summary) := by
  have spaced : 1 ≤ arguments.config.spacing := by
    rw [spacing_config]
    exact le_max_right _ _
  have shortToo : text.size < BreakIndex.idRange := short.trans (by decide)
  have begins : (Buffer.ofText text grammar arguments.config).Stands arguments.config :=
    Buffer.stands_ofText held admits
  obtain ⟨slices, buffer, settled, stands, alike⟩ := settle_eq_ok deadline spaced begins
    (show _ = Except.ok 0 from rfl) shortToo (Nat.le_add_left _ _)
    (show 0 + text.size + 1 ≤ 0 + maxSlices by omega)
  obtain ⟨behind, reached, ahead, highlighter⟩ := stands.highlighter
  have sameConfig := stands.config
  have sameGrammar : buffer.highlighter.grammar = grammar := alike.grammar
  rcases buffer with ⟨textAfter, worker, cache, listeners, nextListener⟩
  have sameText : textAfter = text := alike.text
  have sameCache : cache = .empty := alike.cache
  subst sameText sameCache
  simp only at highlighter sameConfig sameGrammar
  obtain ⟨all, after, scan, size, answered⟩ := StyleCache.styles_whole highlighter
    (by rw [sameConfig]; exact window) (by rw [sameConfig]; exact spaced)
  rw [sameConfig, sameGrammar] at scan
  rw [sameGrammar] at answered
  have asked : Buffer.styles ⟨textAfter, worker, .empty, listeners, nextListener⟩ 0 textAfter.size =
      .ok (.exact (shown grammar textAfter all),
        ⟨textAfter, worker, after, listeners, nextListener⟩) := by
    unfold Buffer.styles
    simp only [answered]
    rfl
  refine ⟨all, ⟨textAfter.size, grammar.name, slices, worker.breaks.size⟩, scan, size, ?_⟩
  unfold Arguments.highlight
  simp only [settled, Except.mapError, Fault.ok_bind]
  simp only [Buffer.size, asked, Fault.ok_bind]
  rfl

/-- A request is carried out by highlighting its file with the grammar of its language. -/
theorem Asks.run_eq (asks : arguments.Asks libraries read registry file text grammar)
    (deadline : Nat → Deadline) :
    arguments.run libraries read deadline = arguments.highlight text grammar deadline := by
  unfold run
  rw [asks.loaded]
  simp only [Except.mapError, Fault.ok_bind, asks.noDump, asks.named, asks.content, asks.selected]

/-- The grammar that is used has been compiled. -/
theorem Asks.compiled (asks : arguments.Asks libraries read registry file text grammar) :
    ∃ source : Grammar.Source, source.compile libraries.engine = .ok grammar := by
  have compiled := compiled_loadRegistry asks.noArchive asks.loaded
  exact asks.selected ▸ compiled.getOrPlain (arguments.languageOf file)

/-- What is shown of a text is what a scan makes of it, if that is the default style throughout for a
grammar without patterns. -/
theorem toList_shown_eq_iff {all : Array StyleId} :
    (shown grammar text all).toList = all.toList ↔
      (grammar.hasPatterns = false → all = Array.replicate text.size defaultStyle) := by
  unfold shown
  rw [Array.toList_inj]
  cases grammar.hasPatterns with
  | true => exact iff_of_true rfl fun none => nomatch none
  | false => exact ⟨fun same _ => same.symm, fun same => (same rfl).symm⟩

/-- **The lines that are printed of a file are the runs of a scan of its text**, whatever the deadlines are
and wherever regexes look, just if the scan gives every byte the default style where there are no patterns.
It does if there are numbers for all patterns. -/
theorem run_prints (asks : arguments.Asks libraries read registry file text grammar)
    (lawful : grammar.Lawful) (small : text.size < maxSlices) (smallToo : grammar.maxExtend < 2 ^ 58)
    (spaced : arguments.spacing.getD Config.usual.spacing < 2 ^ 58) (deadline : Nat → Deadline) :
    ∃ all lines summary, arguments.run libraries read deadline = .ok (.highlighted lines summary) ∧
      grammar.highlight text (max Config.minWindowUnit
          (4 * max (arguments.spacing.getD Config.usual.spacing) 1)) = .ok all ∧
      Tiles 0 (lines.map Prod.fst) text.size ∧
      (∀ line ∈ lines, line.2 = grammar.styleName line.1.style) ∧
      (expand (lines.map Prod.fst) = all.toList ↔
        (grammar.hasPatterns = false → all = Array.replicate text.size defaultStyle)) ∧
      (grammar.patterns.size ≤ Grammar.Compiler.idRange → expand (lines.map Prod.fst) = all.toList) := by
  have held : text.Held := ⟨isUtf8_textOf asks.content, small.trans (by decide)⟩
  obtain ⟨source, compiled⟩ := asks.compiled
  have spacing := spacing_config arguments
  have wellFormed := Grammar.wellFormed_of_compile compiled
  have admits : arguments.config.Admits grammar := by
    refine ⟨⟨?_, fun _ => ?_⟩, wellFormed, lawful⟩
    · unfold maxSize
      omega
    · unfold maxSize
      omega
  obtain ⟨all, summary, scan, size, went⟩ := highlight_eq_ok held small admits
    (by unfold maxSize; unfold maxSlices at small; omega) deadline
  rw [spacing] at scan
  have spans : ((StyledSpan.runs (shown grammar text all).toList).map fun run =>
      (run, grammar.styleName run.style)).map Prod.fst =
        StyledSpan.runs (shown grammar text all).toList := by
    rw [List.map_map]
    exact List.map_id _
  have length : (shown grammar text all).toList.length = text.size := by
    unfold shown
    split
    · rw [Array.length_toList, size]
    · rw [Array.length_toList, Array.size_replicate]
  have tiles := StyledSpan.tiles_runs (shown grammar text all).toList
  have expands := StyledSpan.expand_runs (shown grammar text all).toList
  rw [length] at tiles
  refine ⟨all, _, summary, (asks.run_eq deadline).trans went, scan, ?_, ?_, ?_, ?_⟩
  · rw [spans]
    exact tiles
  · intro line member
    obtain ⟨run, -, rfl⟩ := List.mem_map.mp member
    rfl
  · rw [spans, expands]
    exact toList_shown_eq_iff
  · intro few
    obtain ⟨pattern, root, closing, unstyled⟩ := Grammar.root_of_compile compiled few
    rw [spans, expands, toList_shown_eq_iff]
    intro plain
    have blank := Grammar.highlight_of_plain root closing unstyled plain wellFormed lawful held scan
    rwa [size] at blank

/-! ### A file -/

/-- The registry of the grammar `gaps`, with the plain one beside it. -/
def gapsRegistry : Registry :=
  ⟨#[.gaps, .plain "plain"], [("txt", 1), ("plain", 1), ("g", 0), ("gaps", 0)]⟩

/-- The files of a request: the grammar, and what is to be highlighted. -/
def gapsFiles (path : String) : Option ByteArray :=
  if path = "gaps.json" then some Grammar.gapsFile else some "ab".toUTF8

/-- The request to highlight a file with that grammar. -/
def gapsRequest : Arguments :=
  { Arguments.none with grammars := ["gaps.json"], language := some "g", file := some "notes" }

theorem asks_gaps : gapsRequest.Asks .builtin gapsFiles gapsRegistry "notes" (.ofString "ab") .gaps := by
  have added : Registry.empty.addFile .builtin (gapsFiles "gaps.json") =
      .ok (Registry.empty.addGrammar .gaps) := by
    refine Fault.bind_eq_ok.mpr ⟨.gaps, Fault.bind_eq_ok.mpr ⟨Grammar.gapsSource, ?_, ?_⟩, rfl⟩
    · exact congrArg (fun read => Failure.ofError (Except.mapError Error.json read)) Grammar.read_gapsFile
    · exact Grammar.compile_gaps
  refine ⟨rfl, rfl, rfl, ?_, by decide +kernel, rfl⟩
  unfold loadRegistry
  simp only [gapsRequest, List.foldlM_cons, List.foldlM_nil, added, Fault.ok_bind]
  rfl

theorem run_prints_gaps :
    gapsRequest.Asks .builtin gapsFiles gapsRegistry "notes" (.ofString "ab") .gaps ∧
      Grammar.gaps.Lawful ∧ (Text.ofString "ab").size < maxSlices ∧ Grammar.gaps.maxExtend < 2 ^ 58 ∧
      gapsRequest.spacing.getD Config.usual.spacing < 2 ^ 58 ∧
      ∃ lines summary, gapsRequest.run .builtin gapsFiles (fun _ => .expired) =
        .ok (.highlighted lines summary) ∧ lines.map Prod.fst = [⟨0, 2, defaultStyle⟩] := by
  refine ⟨asks_gaps, Grammar.lawful_gaps, by decide, by decide, by decide, ?_⟩
  obtain ⟨all, lines, summary, went, scan, tiles, -, -, expands⟩ :=
    run_prints asks_gaps Grammar.lawful_gaps (by decide) (by decide) (by decide) fun _ => .expired
  have scanned : Grammar.gaps.highlight (.ofString "ab") 3000 = .ok #[0, 0] := by decide +kernel
  cases scan.symm.trans scanned
  refine ⟨lines, summary, went, ?_⟩
  rw [← StyledSpan.runs_expand tiles, expands (by decide)]
  decide +kernel

end Highlight.Arguments
