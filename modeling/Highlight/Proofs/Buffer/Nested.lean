/-
**All stacks of a buffer are nested.**

A buffer keeps stacks in its breaks and in the run of its cache, through all edits, slices of work,
questions and changes of the grammar. None of them outlives its grammar, and from each of them a scan leads
to nested stacks again:

* `Grammar.IsNumbered`: a grammar that was compiled, with numbers for all of its patterns;
* `StyleCache.Nested`, `Buffer.Nested`: the run that is kept and all breaks have nested stacks;
* `Buffer.Nested.apply`: **every operation keeps it so**;
* `Buffer.TakesUp`: the states in which a buffer takes up a scan;
* `Buffer.StacksNested`: all stacks that are kept or shown are nested, their look-ups are in range, and the
  root is never left;
* `Buffer.run_nested`: **so it is whatever operations have been called**.
-/

import Highlight.Proofs.Buffer.Operations
import Highlight.Proofs.Grammar.Gaps
import Highlight.Proofs.Highlighter.Nested

namespace Highlight

/-! ### Grammars -/

namespace Grammar

/-- The grammar was compiled, with whichever engine for its regexes, and there are numbers for all of its
patterns. -/
structure IsNumbered (grammar : Grammar) : Prop where
  compiled : ∃ (engine : Regex.Engine) (source : Source), source.compile engine = .ok grammar
  few : grammar.patterns.size < Compiler.idRange

theorem IsNumbered.rooted {grammar : Grammar} (numbered : grammar.IsNumbered) : grammar.Rooted := by
  obtain ⟨engine, source, compiled⟩ := numbered.compiled
  obtain ⟨pattern, root, endless, -⟩ := root_of_compile compiled numbered.few.le
  exact ⟨pattern, root, endless⟩

end Grammar

/-! ### The run that is kept -/

namespace StyleCache

/-- The run that is kept goes on in a nested stack. -/
def Nested (grammar : Grammar) (cache : StyleCache) : Prop :=
  ∀ run ∈ cache.run, run.state.stack.Nested grammar

variable {grammar : Grammar} {text : Text} {highlighter : Highlighter} {cache after : StyleCache}

theorem nested_empty (grammar : Grammar) : empty.Nested grammar := fun _ kept => nomatch kept

/-- A run that is scanned further goes on in a nested stack. -/
theorem extend_nested {run longer : StyleRun} {stop : Nat}
    (nested : run.state.stack.Nested highlighter.grammar)
    (went : extend run text highlighter stop = .ok longer) :
    longer.state.stack.Nested highlighter.grammar := by
  rcases extend_cases went with ⟨-, rfl⟩ | ⟨unit, row, state, ending, -, ran, rfl⟩
  · exact nested
  · exact (Scanner.run_keeps (fun _ => True) (fun _ _ _ => trivial)
      (show run.state.stack.Nested (Scanner.ofUnit highlighter.grammar unit).grammar from nested)
      trivial ran).2

/-- A new run begins at a break or with the root alone. -/
theorem seed?_nested {run : StyleRun} {position : Nat} {hint : BreakId}
    (nested : highlighter.Nested)
    (went : cache.seed? text highlighter position = .ok (some run, hint)) :
    run.state.stack.Nested highlighter.grammar := by
  obtain ⟨-, value, found, rfl | ⟨place, -, rfl⟩⟩ := seed?_cases went
  · exact nested.get found
  · exact PatternStack.nested_root _

/-- **Questions keep a run with a nested stack.** -/
theorem Nested.styles (nested : cache.Nested highlighter.grammar) (breaks : highlighter.Nested)
    {position count : Nat} {answer : Answer (Array StyleId)}
    (went : cache.styles text highlighter position count = .ok (answer, after)) :
    after.Nested highlighter.grammar := by
  obtain ⟨start, stop, -, -, ⟨-, rfl, -⟩ | ⟨-, rfl, -⟩ | ⟨run, hint, maxDistance, begins, served⟩ |
    ⟨-, none⟩⟩ := styles_ways went
  · exact nested
  · exact nested
  · have begun : run.state.stack.Nested highlighter.grammar := by
      rcases begins with kept | ⟨id, seeded⟩
      · exact nested run kept
      · exact seed?_nested breaks seeded
    obtain ⟨longer, shorter, styles, extended, trimmed, -, -, rfl⟩ := serve_eq_ok_iff.mp served
    obtain ⟨cut, -, rfl⟩ := trim_cases trimmed
    have goesOn := extend_nested begun extended
    intro run kept
    cases kept
    exact goesOn
  · intro run kept
    rw [none] at kept
    cases kept

/-- An edit leaves the stack of the run as it is. -/
theorem Nested.edit (nested : cache.Nested grammar) {change : Change} {other : Grammar}
    (went : cache.edit change other = .ok after) : after.Nested grammar := by
  intro run kept
  obtain ⟨old, keptBefore, ⟨-, rfl⟩ | ⟨-, rfl⟩⟩ := edit_cases went kept
  · exact nested run keptBefore
  · exact nested old keptBefore

theorem Nested.invalidate (nested : cache.Nested grammar) (span : Span) :
    (cache.invalidate span).Nested grammar :=
  fun run kept => nested run (mem_invalidate kept)

end StyleCache

/-! ### Buffers -/

namespace Buffer

/-- All breaks and the run that is kept have stacks that are nested in the grammar of the buffer. -/
structure Nested (buffer : Buffer) : Prop where
  highlighter : buffer.highlighter.Nested
  cache : buffer.cache.Nested buffer.grammar

variable {buffer after : Buffer}

theorem nested_ofText (text : Text) (grammar : Grammar) (config : Config) :
    (ofText text grammar config).Nested :=
  ⟨Highlighter.nested_ofSize grammar config _, StyleCache.nested_empty grammar⟩

theorem nested_setGrammar (buffer : Buffer) (grammar : Grammar) : (buffer.setGrammar grammar).Nested :=
  ⟨Highlighter.nested_setGrammar _ grammar _, StyleCache.nested_empty grammar⟩

namespace Nested

variable (nested : buffer.Nested)
include nested

theorem replace {start stop : Nat} {inserted : String} {change : Change}
    (went : buffer.replace start stop inserted = .ok (change, after)) :
    after.grammar = buffer.grammar ∧ after.Nested := by
  obtain ⟨-, edited, kept⟩ := replace_eq_ok went
  obtain ⟨same, highlighter⟩ := nested.highlighter.edit edited
  have sameGrammar : after.grammar = buffer.grammar := same
  refine ⟨same, highlighter, ?_⟩
  rw [sameGrammar]
  exact nested.cache.edit kept

theorem process {deadline : Deadline} {scanned : Nat}
    (went : buffer.process deadline = .ok (scanned, after)) :
    after.grammar = buffer.grammar ∧ after.Nested := by
  obtain ⟨processed, -, kept⟩ := process_eq_ok went
  obtain ⟨same, highlighter⟩ := nested.highlighter.process processed
  refine ⟨same, highlighter, ?_⟩
  have sameGrammar : after.grammar = buffer.grammar := same
  rw [kept, sameGrammar]
  exact nested.cache

theorem processUntilIdle {deadline : Nat → Deadline} {work : Work}
    (went : buffer.processUntilIdle deadline = .ok work) :
    work.buffer.grammar = buffer.grammar ∧ work.buffer.Nested := by
  refine processUntilIdle_keeps
    (motive := fun _ after => after.grammar = buffer.grammar ∧ after.Nested) ?_ ⟨rfl, nested⟩ went
  rintro scanned further before after deadline ⟨sameGrammar, nested⟩ processed
  obtain ⟨same, nestedAfter⟩ := nested.process processed
  exact ⟨same.trans sameGrammar, nestedAfter⟩

theorem styles {position count : Nat} {answer : Answer (Array StyleId)}
    (asked : buffer.cache.styles buffer.text buffer.highlighter position count =
      .ok (answer, after.cache)) (same : after.highlighter = buffer.highlighter) :
    after.grammar = buffer.grammar ∧ after.Nested := by
  have sameGrammar : after.grammar = buffer.grammar := congrArg Highlighter.grammar same
  refine ⟨sameGrammar, same ▸ nested.highlighter, ?_⟩
  rw [sameGrammar]
  exact StyleCache.Nested.styles nested.cache nested.highlighter asked

theorem flush : buffer.flush.2.2.grammar = buffer.grammar ∧ buffer.flush.2.2.Nested := by
  refine ⟨grammar_flush buffer, ?_, ?_⟩
  · rw [highlighter_flush]
    exact nested.highlighter
  · rw [grammar_flush]
    exact cache_flush nested.cache nested.cache.invalidate

/-- **Every operation leaves nested stacks only.** The grammar stays what it is, unless the operation
changes it. -/
theorem apply {operation : Operation} (went : operation.apply buffer = .ok after) :
    (after.grammar = buffer.grammar ∨ operation = .setGrammar after.grammar) ∧ after.Nested := by
  have keeps : after.grammar = buffer.grammar ∧ after.Nested →
      (after.grammar = buffer.grammar ∨ operation = .setGrammar after.grammar) ∧ after.Nested :=
    fun both => ⟨Or.inl both.1, both.2⟩
  cases operation with
  | replace start stop inserted =>
    obtain ⟨⟨change, next⟩, replaced, rfl⟩ := Fault.map_eq_ok.mp went
    exact keeps (nested.replace replaced)
  | process deadline =>
    obtain ⟨⟨scanned, next⟩, processed, rfl⟩ := Fault.map_eq_ok.mp went
    exact keeps (nested.process processed)
  | work deadline =>
    obtain ⟨work, worked, rfl⟩ := Fault.map_eq_ok.mp went
    exact keeps (nested.processUntilIdle worked)
  | styles position count =>
    obtain ⟨⟨answer, next⟩, asked, rfl⟩ := Fault.map_eq_ok.mp went
    obtain ⟨asked, -, same⟩ := styles_eq_ok asked
    exact keeps (nested.styles asked same)
  | style position =>
    obtain ⟨⟨answer, next⟩, asked, rfl⟩ := Fault.map_eq_ok.mp went
    obtain ⟨⟨row, asked⟩, -, same⟩ := style_eq_ok asked
    exact keeps (nested.styles asked same)
  | flush =>
    cases went
    exact keeps nested.flush
  | setGrammar grammar =>
    cases went
    exact ⟨Or.inr rfl, nested_setGrammar buffer grammar⟩
  | listen =>
    cases went
    exact keeps ⟨rfl, nested.highlighter, nested.cache⟩
  | unlisten id =>
    cases went
    exact keeps ⟨rfl, nested.highlighter, nested.cache⟩

/-- Operations leave nested stacks only, and the grammar is the first one or one that was changed to. -/
theorem run {operations : List Operation} (went : Buffer.run operations buffer = .ok after) :
    (after.grammar = buffer.grammar ∨ .setGrammar after.grammar ∈ operations) ∧ after.Nested := by
  induction operations generalizing buffer with
  | nil =>
    cases went
    exact ⟨Or.inl rfl, nested⟩
  | cons operation rest ih =>
    obtain ⟨next, applied, went⟩ := Fault.bind_eq_ok.mp went
    obtain ⟨first, nestedNext⟩ := nested.apply applied
    obtain ⟨later, nestedAfter⟩ := ih nestedNext went
    refine ⟨?_, nestedAfter⟩
    rcases later with same | listed
    · rw [same]
      refine first.imp id fun changes => ?_
      rw [← changes]
      exact List.mem_cons_self
    · exact Or.inr (List.mem_cons_of_mem _ listed)

end Nested

/-! ### Scans -/

/-- The states in which a buffer takes up a scan: at a break, behind the run that is kept, or at a guess. -/
inductive TakesUp (buffer : Buffer) : ScanState → Prop where
  | atBreak {id : BreakId} {value : Break} (found : buffer.highlighter.breaks.get id = .ok value) :
      TakesUp buffer (.ofBreak value)
  | behindRun {run : StyleRun} (kept : run ∈ buffer.cache.run) : TakesUp buffer run.state
  | atGuess (position : Nat) : TakesUp buffer (.startingAt position .root)

theorem Nested.takesUp (nested : buffer.Nested) {state : ScanState} (begins : buffer.TakesUp state) :
    state.stack.Nested buffer.grammar := by
  cases begins with
  | atBreak found => exact nested.highlighter.get found
  | behindRun kept => exact nested.cache _ kept
  | atGuess position => exact PatternStack.nested_root _

/-- All stacks that a buffer keeps are nested in its grammar, and so are those that its scans lead to and
show to a sink. From such a stack every look-up is in range, and the root is never left. -/
structure StacksNested (buffer : Buffer) : Prop where
  atBreaks : ∀ id value, buffer.highlighter.breaks.get id = .ok value →
    value.stack.Nested buffer.grammar
  inCache : ∀ run ∈ buffer.cache.run, run.state.stack.Nested buffer.grammar
  shown : ∀ unit text state, buffer.TakesUp state →
    (Scanner.mk buffer.grammar unit).ShowsOnly text (PatternStack.Nested buffer.grammar) state
  ledTo : ∀ unit text state, buffer.TakesUp state →
    ∀ (σ : Type) (sink : Sink σ) limit collected steps after,
      Scanner.Scanned ⟨buffer.grammar, unit⟩ text sink limit state collected steps after →
      ∀ move ∈ steps.flatten, move.state.stack.Nested buffer.grammar
  inRange : ∀ stack : PatternStack, stack.Nested buffer.grammar → ∀ frame ∈ stack.frames,
    ∃ pattern, buffer.grammar.pattern frame.pattern = .ok pattern
  neverLeft : ∀ window state found, state.stack.Nested buffer.grammar →
    buffer.grammar.choose window state = .ok (some (.closing found)) →
    state.stack.pop = some (state.stack.top, state.stack.outer)

theorem Nested.stacksNested (nested : buffer.Nested) (rooted : buffer.grammar.Rooted) :
    buffer.StacksNested where
  atBreaks _ _ found := nested.highlighter.get found
  inCache := nested.cache
  shown _ text _ begins := Scanner.showsOnly_nested (nested.takesUp begins) text
  ledTo _ _ _ begins _ _ _ _ _ _ scanned := (scanned.nested (nested.takesUp begins)).1
  inRange _ inside := inside.exists_pattern rooted
  neverLeft _ _ _ _ chosen := rooted.pop (Grammar.choose_offers chosen)

/-- **Whatever operations have been called, all stacks of a buffer are nested.** -/
theorem run_nested {text : Text} {grammar : Grammar} {config : Config} {operations : List Operation}
    (numbered : grammar.IsNumbered)
    (others : ∀ other, .setGrammar other ∈ operations → other.IsNumbered)
    (went : run operations (ofText text grammar config) = .ok buffer) : buffer.StacksNested := by
  obtain ⟨known, nested⟩ := (nested_ofText text grammar config).run went
  refine nested.stacksNested ?_
  rcases known with same | listed
  · rw [same]
    exact numbered.rooted
  · exact (others _ listed).rooted

end Buffer

/-! ### A run with nested regions -/

namespace Grammar

/-- A grammar whose only regions begin and end between characters and may be nested, as it is written. -/
def shellsSource : Source :=
  let head := { Head.blank with opening := some "", closing := some "", closingLast := true }
  { Source.named "shells" with
    rules := [⟨head, [⟨{ Head.blank with reference := some "$self" }, []⟩]⟩] }

/-- The same, compiled. -/
def shells : Grammar :=
  { gaps with
    name := "shells"
    fileTypes := []
    regexes := #[⟨"", .gap, .ok .gap⟩, ⟨"", .gap, .ok .gap⟩]
    patterns := #[{ Pattern.blank 0 256 with children := [1] },
      { Pattern.blank 1 256 with
        opening := some 0, closing := some 1, closingLast := true, children := [1] }] }

theorem isNumbered_gaps : gaps.IsNumbered := ⟨⟨.backtracking, gapsSource, compile_gaps⟩, by decide⟩

theorem isNumbered_shells : shells.IsNumbered := by
  let flat : Compiler := ⟨256, #[defaultStyleName], shells.regexes, shells.patterns,
    #[[.pattern 1], [.include "$self"]], []⟩
  let written : Compiler := { flat with
    patterns := #[Pattern.blank 0 256,
      { Pattern.blank 1 256 with opening := some 0, closing := some 1, closingLast := true }] }
  have ruled : Compiler.rule .backtracking ⟨Head.blank, shellsSource.rules⟩
      ⟨256, #[defaultStyleName], #[], #[], #[], []⟩ = .ok (0, written) := rfl
  have flattened : written.resolved = .ok flat := rfl
  exact ⟨⟨.backtracking, shellsSource, compile_of_rules rfl ruled flattened rfl rfl⟩, by decide⟩

end Grammar

namespace Buffer

/-- The operations change the grammar, and work, an edit and a question follow. -/
def changing : List Operation :=
  [.process .never, .setGrammar .shells, .process .never, .replace 1 1 "c", .styles 0 3]

theorem run_nested_changing :
    ∃ buffer, Grammar.IsNumbered .gaps ∧
      (∀ other, .setGrammar other ∈ changing → other.IsNumbered) ∧
      run changing (ofText (.ofString "ab") .gaps ⟨1, 1024⟩) = .ok buffer ∧ buffer.StacksNested ∧
      ∃ kept ∈ buffer.cache.run, kept.state.stack.depth = 4 ∧
        kept.state.stack.Nested buffer.grammar := by
  have others : ∀ other, .setGrammar other ∈ changing → other.IsNumbered := by
    intro other listed
    simp only [changing, List.mem_cons, Operation.setGrammar.injEq, reduceCtorEq, List.not_mem_nil,
      or_false, false_or] at listed
    rw [listed]
    exact Grammar.isNumbered_shells
  have found : (run changing (ofText (.ofString "ab") .gaps ⟨1, 1024⟩)).map
      (fun buffer => buffer.cache.run.map fun run => run.state.stack.depth) = .ok (some 4) := by
    decide +kernel
  obtain ⟨buffer, went, depth⟩ := Fault.map_eq_ok.mp found
  obtain ⟨kept, isKept, deep⟩ := Option.map_eq_some_iff.mp depth
  have holds := run_nested Grammar.isNumbered_gaps others went
  exact ⟨buffer, Grammar.isNumbered_gaps, others, went, holds, kept, isKept, deep,
    holds.inCache kept isKept⟩

end Buffer

end Highlight
