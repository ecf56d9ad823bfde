/-
**Every break of a highlighter has a nested stack.**

Breaks are stored with the stacks that a scan shows, and the first one has the root alone. What becomes of
them later, work and edits leave their stacks alone, and with another grammar all but the first are gone:

* `Pass.sink_stores`: whatever a pass is handed, it stores stacks that are asked for, if it is shown no
  others;
* `Highlighter.Nested`: all stored stacks are nested in the grammar of the highlighter;
* `Highlighter.nested_ofSize`, `Highlighter.nested_setGrammar`: so it is at the start and with each new
  grammar;
* `Highlighter.Nested.process`, `Highlighter.Nested.edit`: **work and edits keep it so**.
-/

import Highlight.Proofs.Break.Stores
import Highlight.Proofs.Highlighter.Charted
import Highlight.Proofs.Scan.Nested

namespace Highlight

/-! ### Passes -/

namespace Pass

variable {plan : PassPlan} {asked : PatternStack → Prop} {pass after : Pass} {flow : Flow}

/-- A pass stores no other stacks than it is shown. -/
theorem sink_stores {token : Token} {state : ScanState} (stores : pass.breaks.Stores asked)
    (holds : asked state.stack) (went : sink plan pass token state = .ok (after, flow)) :
    after.breaks.Stores asked := by
  refine sink_induct (motive := fun pass => pass.breaks.Stores asked) ?_ stores went
  intro pass after flow value stores chosen went
  have asks : asked value.stack := by
    cases chosen <;> exact holds
  rcases breaks_of_checkpoint went with ⟨rfl, -⟩ | ⟨result, stored, -⟩
  · exact stores
  · exact stores.setBreak asks stored

end Pass

/-! ### Highlighters -/

namespace Highlighter

/-- All stacks that are stored are nested in the grammar. -/
def Nested (highlighter : Highlighter) : Prop :=
  highlighter.breaks.Stores (PatternStack.Nested highlighter.grammar)

variable {highlighter after : Highlighter}

theorem nested_reset (highlighter : Highlighter) (size : Nat) : (highlighter.reset size).Nested :=
  BreakIndex.stores_initial (PatternStack.nested_root _)

theorem nested_ofSize (grammar : Grammar) (config : Config) (size : Nat) :
    (ofSize grammar config size).Nested :=
  nested_reset _ size

/-- No break is left that a scan with another grammar has come to. -/
theorem nested_setGrammar (highlighter : Highlighter) (grammar : Grammar) (size : Nat) :
    (highlighter.setGrammar grammar size).Nested :=
  nested_reset _ size

namespace Nested

variable (nested : highlighter.Nested)
include nested

/-- A scan that is taken up at a break begins in a nested stack. -/
theorem get {id : BreakId} {value : Break} (found : highlighter.breaks.get id = .ok value) :
    value.stack.Nested highlighter.grammar :=
  BreakIndex.Stores.get nested found

/-- **Work stores nested stacks only.** -/
theorem process {text : Text} {deadline : Deadline} {scanned : Nat}
    (went : highlighter.process text deadline = .ok (scanned, after)) :
    after.grammar = highlighter.grammar ∧ after.Nested := by
  rcases exists_run_of_process went with ⟨-, rfl⟩ |
    ⟨same, -, unit, value, pass, state, ending, -, found, ran, -, -, left⟩
  · exact ⟨rfl, nested⟩
  · have begins : (ScanState.ofBreak value).stack.Nested
        (Scanner.ofUnit highlighter.grammar unit).grammar := nested.get found
    have stores : pass.breaks.Stores (PatternStack.Nested highlighter.grammar) :=
      (Scanner.run_keeps
        (fun pass : Pass => pass.breaks.Stores (PatternStack.Nested highlighter.grammar))
        Pass.sink_stores begins
        (show highlighter.breaks.Stores (PatternStack.Nested highlighter.grammar) from nested)
        ran).1
    refine ⟨same, ?_⟩
    unfold Nested
    rw [same]
    rcases left with ⟨kept, -⟩ | ⟨-, truncated⟩
    · exact kept ▸ stores
    · exact stores.truncateAfter truncated

/-- **Edits leave the stacks as they are.** -/
theorem edit {change : Change} (went : highlighter.edit change = .ok after) :
    after.grammar = highlighter.grammar ∧ after.Nested := by
  obtain ⟨same, -, stores⟩ := edit_keeps
    (motive := fun index => index.Stores (PatternStack.Nested highlighter.grammar))
    (fun stores => stores.deleteRange) (fun stores => stores.shiftFrom) nested went
  refine ⟨same, ?_⟩
  unfold Nested
  rw [same]
  exact stores

end Nested

end Highlighter

end Highlight
