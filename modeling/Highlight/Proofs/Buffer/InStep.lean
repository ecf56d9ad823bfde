/-
**A buffer keeps its highlighter and its cache in step with its text.**

Nothing is asked of the settings, nor of what the regexes see. But an index may hold as many breaks only as
there are numbers for their slots:

* `Buffer.InStep`: the text, the highlighter and the cache of a buffer are in step;
* `Buffer.InStep.apply`: **operations keep them so** as long as there are numbers;
* `Buffer.AllNumbered`, `Buffer.InStep.run`: so do several of them, with numbers after each.
-/

import Highlight.Proofs.Buffer.Operations
import Highlight.Proofs.Query.Reachable

namespace Highlight.Buffer

variable {buffer after : Buffer}

/-- A buffer keeps its highlighter and its cache in step with its text. -/
def InStep (buffer : Buffer) : Prop :=
  StyleCache.Reachable buffer.text buffer.highlighter buffer.cache

/-- The numbers of a grammar are those of its patterns and regexes, and matches lie in what was searched. -/
def Usable (grammar : Grammar) : Prop := grammar.WellFormed ∧ grammar.Lawful

/-- There are numbers for all slots of the index after each of some operations. -/
def AllNumbered : Buffer → List Operation → Prop
  | _, [] => True
  | buffer, operation :: rest => ∀ after, operation.apply buffer = .ok after →
      after.highlighter.breaks.Numbered ∧ AllNumbered after rest

theorem inStep_ofText {text : Text} {grammar : Grammar} {config : Config} (held : text.Held)
    (usable : Usable grammar) : (ofText text grammar config).InStep :=
  .fresh held usable.1 usable.2

namespace InStep

variable (inStep : buffer.InStep)
include inStep

theorem replace {start stop : Nat} {inserted : String} {change : Change} (small : after.size < 2 ^ 63)
    (went : buffer.replace start stop inserted = .ok (change, after)) : after.InStep := by
  obtain ⟨replaced, edited, kept⟩ := replace_eq_ok went
  exact StyleCache.Reachable.edit inStep replaced small edited kept

theorem process {deadline : Deadline} {scanned : Nat}
    (went : buffer.process deadline = .ok (scanned, after))
    (numbered : after.highlighter.breaks.Numbered) : after.InStep ∧ after.text = buffer.text := by
  obtain ⟨processed, sameText, sameCache⟩ := process_eq_ok went
  refine ⟨?_, sameText⟩
  unfold InStep
  rw [sameText, sameCache]
  exact StyleCache.Reachable.process inStep processed numbered

theorem processUntilIdle {deadline : Nat → Deadline} {work : Work}
    (went : buffer.processUntilIdle deadline = .ok work)
    (numbered : work.buffer.highlighter.breaks.Numbered) :
    work.buffer.InStep ∧ work.buffer.text = buffer.text := by
  refine processUntilIdle_induct (motive := fun _ after => after.InStep ∧ after.text = buffer.text)
    ?_ ⟨inStep, rfl⟩ went numbered
  rintro scanned further before after deadline ⟨inStep, sameText⟩ processed numbered
  obtain ⟨inStepAfter, same⟩ := inStep.process processed numbered
  exact ⟨inStepAfter, same.trans sameText⟩

theorem styles {position count : Nat} {answer : Answer (Array StyleId)}
    (asked : buffer.cache.styles buffer.text buffer.highlighter position count =
      .ok (answer, after.cache)) (sameText : after.text = buffer.text)
    (same : after.highlighter = buffer.highlighter) : after.InStep := by
  unfold InStep
  rw [sameText, same]
  exact StyleCache.Reachable.styles inStep asked

theorem flush : buffer.flush.2.2.InStep ∧ buffer.flush.2.2.text = buffer.text := by
  have taken : StyleCache.Reachable buffer.text buffer.highlighter.takeDirty.2 buffer.cache :=
    .takeDirty inStep
  refine ⟨?_, text_flush buffer⟩
  unfold InStep
  rw [text_flush, highlighter_flush]
  exact cache_flush taken taken.invalidate

theorem setGrammar {grammar : Grammar} (usable : Usable grammar) : (buffer.setGrammar grammar).InStep :=
  StyleCache.Reachable.setGrammar inStep usable.1 usable.2

/-- **Every operation that may be called and goes well leaves them in step.** -/
theorem apply {operation : Operation} (allowed : operation.Allowed Usable (2 ^ 63) buffer.text)
    (went : operation.apply buffer = .ok after) (numbered : after.highlighter.breaks.Numbered) :
    after.InStep ∧ after.text = operation.textAfter buffer.text := by
  cases operation with
  | replace start stop inserted =>
    obtain ⟨⟨change, next⟩, replaced, rfl⟩ := Fault.map_eq_ok.mp went
    obtain ⟨-, -, -, sameText, -⟩ := Text.replace_eq_ok (replace_eq_ok replaced).1
    have small : next.size < 2 ^ 63 := by
      unfold size
      rw [sameText]
      exact allowed.2
    exact ⟨inStep.replace small replaced, sameText⟩
  | process deadline =>
    obtain ⟨⟨scanned, next⟩, processed, rfl⟩ := Fault.map_eq_ok.mp went
    exact inStep.process processed numbered
  | work deadline =>
    obtain ⟨work, worked, rfl⟩ := Fault.map_eq_ok.mp went
    exact inStep.processUntilIdle worked numbered
  | styles position count =>
    obtain ⟨⟨answer, next⟩, asked, rfl⟩ := Fault.map_eq_ok.mp went
    obtain ⟨asked, sameText, same⟩ := styles_eq_ok asked
    exact ⟨inStep.styles asked sameText same, sameText⟩
  | style position =>
    obtain ⟨⟨answer, next⟩, asked, rfl⟩ := Fault.map_eq_ok.mp went
    obtain ⟨⟨row, asked⟩, sameText, same⟩ := style_eq_ok asked
    exact ⟨inStep.styles asked sameText same, sameText⟩
  | flush =>
    cases went
    exact inStep.flush
  | setGrammar grammar =>
    cases went
    exact ⟨inStep.setGrammar allowed, rfl⟩
  | listen =>
    cases went
    exact ⟨inStep, rfl⟩
  | unlisten id =>
    cases went
    exact ⟨inStep, rfl⟩

/-- So do several of them, one after the other. -/
theorem run {operations : List Operation} (allowed : AllAllowed Usable (2 ^ 63) buffer.text operations)
    (numbered : buffer.AllNumbered operations) (went : Buffer.run operations buffer = .ok after) :
    after.InStep := by
  induction operations generalizing buffer with
  | nil =>
    cases went
    exact inStep
  | cons operation rest ih =>
    obtain ⟨next, applied, went⟩ := Fault.bind_eq_ok.mp went
    obtain ⟨numberedNext, others⟩ := numbered next applied
    obtain ⟨inStepNext, sameText⟩ := inStep.apply allowed.1 applied numberedNext
    exact ih inStepNext (sameText.symm ▸ allowed.2) others went

end InStep

end Highlight.Buffer
