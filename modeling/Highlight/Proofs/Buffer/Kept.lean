/-
**The run that a buffer keeps.**

A run is scanned further by questions, cut off at its front, moved along by edits before it and dropped by
those that touch it. Its end stays where its scan is:

* `Buffer.KeepsRun`: what is true of the run that is kept;
* `Buffer.AnswersInFull`: a question is answered with a style for every byte;
* `Buffer.run_keepsRun`: **both are true after any operations**.
-/

import Highlight.Proofs.Buffer.Slots
import Highlight.Proofs.Query.Lengths

namespace Highlight.Buffer

variable {buffer after : Buffer}

/-- The styles of the run that is kept end where its scan is. That is at a character of the text, and not
before a match without bytes that the scan remembers. -/
structure KeepsRun (buffer : Buffer) (run : StyleRun) : Prop where
  stop : run.row.start + run.row.styles.size = run.state.position
  boundary : buffer.text.isBoundary run.state.position = true
  inside : run.state.position ≤ buffer.size
  emptyAt : ∀ place ∈ run.state.emptyAt, place ≤ run.state.position

/-- A question fails only where a size overflows, and an answer that has styles has one for every byte of
the text that was asked for. -/
def AnswersInFull (buffer : Buffer) (position count : Nat) : Prop :=
  Fault.Ends (· = .overflow) (fun (answer, _) => ∀ value ∈ answer.value?,
    value.size = min (position + count) buffer.size - min position buffer.size)
    (buffer.styles position count)

theorem InStep.keepsRun (inStep : buffer.InStep) {run : StyleRun} (kept : run ∈ buffer.cache.run) :
    buffer.KeepsRun run := by
  have aligned := StyleCache.Reachable.aligned inStep run kept
  exact ⟨aligned.stop, aligned.good.boundary, aligned.good.position_le, aligned.good.emptyAt⟩

theorem InStep.answersInFull (inStep : buffer.InStep) (position count : Nat) :
    buffer.AnswersInFull position count := by
  obtain ⟨behind, reached, ahead, laid⟩ := StyleCache.Reachable.laid inStep
  have ends := StyleCache.styles_ends laid (StyleCache.Reachable.aligned inStep) position count
  rcases buffer with ⟨text, highlighter, cache, listeners, nextListener⟩
  exact ends.bind fun _ answered => answered

/-- **After any operations the run that is kept ends where its scan is, and every question is answered in
full**, as long as there are numbers for the breaks. Nothing is asked of what the regexes see, nor of the
settings. -/
theorem run_keepsRun {text : Text} {grammar : Grammar} {config : Config} {operations : List Operation}
    (held : text.Held) (usable : Usable grammar)
    (allowed : AllAllowed Usable (2 ^ 63) text operations)
    (numbered : (ofText text grammar config).AllNumbered operations)
    (went : run operations (ofText text grammar config) = .ok buffer) :
    (∀ run ∈ buffer.cache.run, buffer.KeepsRun run) ∧
      ∀ position count, buffer.AnswersInFull position count := by
  have inStep := (inStep_ofText held usable).run allowed numbered went
  exact ⟨fun _ kept => inStep.keepsRun kept, inStep.answersInFull⟩

/-- The closing bracket has been asked for, and the byte before the brackets is deleted. -/
def moving : List Operation := [.process .never, .styles 3 1, .replace 0 1 ""]

theorem run_keepsRun_moving :
    ∃ buffer, (Text.ofString "a(b)").Held ∧ Usable .brackets ∧
      AllAllowed Usable (2 ^ 63) (.ofString "a(b)") moving ∧
      (ofText (.ofString "a(b)") .brackets ⟨1, 1024⟩).AllNumbered moving ∧
      run moving (ofText (.ofString "a(b)") .brackets ⟨1, 1024⟩) = .ok buffer ∧
      (∃ kept ∈ buffer.cache.run, kept.row.start = 2 ∧ kept.state.position = 3 ∧
        buffer.KeepsRun kept) ∧
      ∀ position count, buffer.AnswersInFull position count := by
  have usable : Usable .brackets := ⟨Grammar.wellFormed_brackets, Grammar.lawful_brackets⟩
  have allowed : AllAllowed Usable (2 ^ 63) (.ofString "a(b)") moving :=
    ⟨trivial, trivial, ⟨by decide +kernel, by decide +kernel⟩, trivial⟩
  have numbered : (ofText (.ofString "a(b)") .brackets ⟨1, 1024⟩).AllNumbered moving :=
    allNumbered_of_short Text.held_brackets usable (show 0 < 1 by decide) (by decide)
      ⟨trivial, trivial, ⟨by decide +kernel, by decide +kernel⟩, trivial⟩
  have found : (run moving (ofText (.ofString "a(b)") .brackets ⟨1, 1024⟩)).map
      (fun buffer => buffer.cache.run.map fun run => (run.row.start, run.state.position)) =
        (.ok (some (2, 3)) : Except Fault _) := by decide +kernel
  obtain ⟨buffer, went, shape⟩ := Fault.map_eq_ok.mp found
  obtain ⟨kept, isKept, same⟩ := Option.map_eq_some_iff.mp shape
  obtain ⟨keeps, answers⟩ := run_keepsRun Text.held_brackets usable allowed numbered went
  exact ⟨buffer, Text.held_brackets, usable, allowed, numbered, went,
    ⟨kept, isKept, (Prod.mk.inj same).1, (Prod.mk.inj same).2, keeps kept isKept⟩, answers⟩

end Highlight.Buffer
