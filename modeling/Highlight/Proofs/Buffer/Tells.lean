/-
**What a flush tells.**

A flush tells nothing to nobody, or one range to every listener. The range lies between characters of the
text as it is then. Nothing empty is noted in the first place, but an edit can take out what was:

* `Buffer.Operation.Empties`, `Buffer.Operation.Silent`: an operation deletes the text up to the end of
  what is noted; an operation notes nothing;
* `Buffer.Notes`: what a buffer has noted is between characters, and its listeners are told apart;
* `Buffer.Notes.apply`: every operation keeps it so;
* `Buffer.Emptied`: of several operations one has emptied what was noted, and none after it has noted
  anything;
* `Buffer.run_tells`: **what a flush tells after any operations**, with a range that is empty in just that
  case.
-/

import Highlight.Proofs.Buffer.Kept
import Highlight.Proofs.Highlighter.Noted

namespace Highlight.Buffer

variable {buffer after : Buffer} {operation : Operation}

/-! ### Listeners -/

/-- The listeners of a buffer, and the number of the next one. -/
def audience (buffer : Buffer) : List ListenerId × ListenerId := (buffer.listeners, buffer.nextListener)

theorem audience_replace {start stop : Nat} {inserted : String} {change : Change}
    (went : buffer.replace start stop inserted = .ok (change, after)) :
    after.audience = buffer.audience := by
  unfold replace at went
  obtain ⟨_, -, went⟩ := Fault.bind_eq_ok.mp went
  obtain ⟨_, -, went⟩ := Fault.bind_eq_ok.mp went
  obtain ⟨_, -, went⟩ := Fault.bind_eq_ok.mp went
  cases went
  rfl

theorem audience_process {deadline : Deadline} {scanned : Nat}
    (went : buffer.process deadline = .ok (scanned, after)) : after.audience = buffer.audience := by
  unfold process at went
  obtain ⟨_, -, went⟩ := Fault.bind_eq_ok.mp went
  cases went
  rfl

theorem audience_styles {position count : Nat} {answer : Answer (Array StyleId)}
    (went : buffer.styles position count = .ok (answer, after)) :
    after.audience = buffer.audience := by
  unfold styles at went
  obtain ⟨_, -, went⟩ := Fault.bind_eq_ok.mp went
  cases went
  rfl

theorem audience_style {position : Nat} {answer : Answer StyleId}
    (went : buffer.style position = .ok (answer, after)) : after.audience = buffer.audience := by
  unfold style at went
  obtain ⟨_, -, went⟩ := Fault.bind_eq_ok.mp went
  cases went
  rfl

theorem audience_flush (buffer : Buffer) : buffer.flush.2.2.audience = buffer.audience := by
  unfold flush
  split <;> rfl

/-! ### What operations note -/

namespace Operation

/-- An operation deletes the text up to the end of what is noted. -/
def Empties (buffer : Buffer) : Operation → Prop
  | replace start stop inserted => start = 0 ∧ inserted = "" ∧
      ∃ span ∈ buffer.highlighter.dirty, span.stop ≤ stop
  | _ => False

/-- An operation neither notes anything nor tells of it: it is no edit and no flush, and if it is work or a
change of the grammar then no byte is scanned or to be scanned. -/
def Silent (buffer : Buffer) : Operation → Prop
  | replace _ _ _ => False
  | process deadline => ∃ after, buffer.process deadline = .ok (0, after)
  | work deadline => ∃ work, buffer.processUntilIdle deadline = .ok work ∧ work.scanned = 0
  | flush => False
  | setGrammar _ => buffer.size = 0
  | _ => True

end Operation

/-- None of several operations notes anything. -/
inductive AllSilent : Buffer → List Operation → Prop
  | nil {buffer : Buffer} : AllSilent buffer []
  | cons {buffer after : Buffer} {operation : Operation} {rest : List Operation}
      (silent : operation.Silent buffer) (went : operation.apply buffer = .ok after)
      (others : AllSilent after rest) : AllSilent buffer (operation :: rest)

/-- One of several operations deletes the text up to the end of what is noted, and none after it notes
anything. -/
inductive Emptied : Buffer → List Operation → Prop
  | here {buffer after : Buffer} {operation : Operation} {rest : List Operation}
      (empties : operation.Empties buffer) (went : operation.apply buffer = .ok after)
      (silent : AllSilent after rest) : Emptied buffer (operation :: rest)
  | later {buffer after : Buffer} {operation : Operation} {rest : List Operation}
      (went : operation.apply buffer = .ok after) (emptied : Emptied after rest) :
      Emptied buffer (operation :: rest)

/-- What a buffer has noted is between characters of its text, and no two of its listeners are the same. -/
structure Notes (buffer : Buffer) : Prop where
  inStep : buffer.InStep
  noted : ∀ span ∈ buffer.highlighter.dirty, span.Noted buffer.text
  distinct : buffer.listeners.Nodup
  known : ∀ id ∈ buffer.listeners, id < buffer.nextListener

/-- What a buffer has noted is the empty range. -/
def NotesEmpty (buffer : Buffer) : Prop := buffer.highlighter.dirty = some ⟨0, 0⟩

theorem notes_ofText {text : Text} {grammar : Grammar} {config : Config} (held : text.Held)
    (usable : Usable grammar) :
    (ofText text grammar config).Notes ∧ ¬ (ofText text grammar config).NotesEmpty := by
  have dirty : (ofText text grammar config).highlighter.dirty = Span.add none ⟨0, text.size⟩ := rfl
  refine ⟨⟨inStep_ofText held usable, ?_, List.nodup_nil, fun _ member => nomatch member⟩, ?_⟩
  · rw [dirty]
    exact Span.noted_add (fun _ member => nomatch member) text.isBoundary_zero text.isBoundary_size
  · unfold NotesEmpty
    rw [dirty, Span.add_eq_emptied_iff]
    rintro ⟨-, none⟩
    cases none

namespace Notes

variable (notes : buffer.Notes)
include notes

/-- Those who listen are told apart as long as they are the same. -/
theorem of_audience (inStep : after.InStep)
    (noted : ∀ span ∈ after.highlighter.dirty, span.Noted after.text)
    (same : after.audience = buffer.audience) : after.Notes := by
  obtain ⟨listeners, next⟩ := Prod.mk.inj same
  exact ⟨inStep, noted, listeners ▸ notes.distinct, fun id member => by
    rw [next]
    exact notes.known id (listeners ▸ member)⟩

/-- A question notes nothing. -/
theorem of_same (inStep : after.InStep) (sameText : after.text = buffer.text)
    (same : after.highlighter = buffer.highlighter) (sameAudience : after.audience = buffer.audience) :
    after.Notes ∧ (after.NotesEmpty ↔ buffer.NotesEmpty) := by
  refine ⟨notes.of_audience inStep ?_ sameAudience, ?_⟩
  · rw [same, sameText]
    exact notes.noted
  · unfold NotesEmpty
    rw [same]

theorem flush : buffer.flush.2.2.Notes ∧ ¬ buffer.flush.2.2.NotesEmpty := by
  have none : buffer.flush.2.2.highlighter.dirty = none := by rw [highlighter_flush]
  refine ⟨notes.of_audience notes.inStep.flush.1 ?_ (audience_flush buffer), ?_⟩
  · rw [none]
    exact fun _ member => nomatch member
  · unfold NotesEmpty
    rw [none]
    exact fun empty => nomatch empty

theorem setGrammar {grammar : Grammar} (usable : Usable grammar) :
    (buffer.setGrammar grammar).Notes ∧
      ((buffer.setGrammar grammar).NotesEmpty ↔ buffer.size = 0 ∧ buffer.NotesEmpty) := by
  have dirty : (buffer.setGrammar grammar).highlighter.dirty =
      Span.add buffer.highlighter.dirty ⟨0, buffer.size⟩ := rfl
  refine ⟨notes.of_audience (notes.inStep.setGrammar usable) ?_ rfl, ?_⟩
  · rw [dirty]
    exact Span.noted_add notes.noted buffer.text.isBoundary_zero buffer.text.isBoundary_size
  · unfold NotesEmpty
    rw [dirty, Span.add_eq_emptied_iff, Span.isEmpty_iff, Nat.le_zero]

theorem listen : buffer.listen.2.Notes := by
  refine ⟨notes.inStep, notes.noted, ?_, fun id member => ?_⟩
  · refine List.nodup_append.mpr
      ⟨notes.distinct, List.nodup_singleton _, fun id member other new => ?_⟩
    rw [List.mem_singleton.mp new]
    exact (notes.known id member).ne
  · show id < buffer.nextListener + 1
    rcases List.mem_append.mp member with old | new
    · exact (notes.known id old).trans (Nat.lt_succ_self _)
    · rw [List.mem_singleton.mp new]
      exact Nat.lt_succ_self _

theorem unlisten (id : ListenerId) : (buffer.unlisten id).2.Notes :=
  ⟨notes.inStep, notes.noted, notes.distinct.filter _,
    fun other member => notes.known other (List.mem_of_mem_filter member)⟩

/-- An edit notes what it changes, and it empties what is noted if it deletes the text up to the end of
that. -/
theorem replace {start stop : Nat} {inserted : String} {change : Change} (small : after.size < 2 ^ 63)
    (went : buffer.replace start stop inserted = .ok (change, after)) :
    after.Notes ∧ (after.NotesEmpty ↔ (Operation.replace start stop inserted).Empties buffer) := by
  obtain ⟨replaced, edited, -⟩ := replace_eq_ok went
  obtain ⟨behind, reached, ahead, laid⟩ := StyleCache.Reachable.laid notes.inStep
  have edits := Text.edits_of_replace laid.held small replaced
  obtain ⟨begins, dirty, inFront, clear, boundary⟩ := laid.edit_dirty edits edited
  refine ⟨notes.of_audience (notes.inStep.replace small went) ?_ (audience_replace went), ?_⟩
  · rw [dirty]
    exact Span.noted_carry edits notes.noted inFront clear boundary
  · unfold NotesEmpty
    rw [dirty, Span.carry_emptied_iff edits notes.noted inFront clear]
    obtain ⟨ordered, -, stops, splice, lengths⟩ := Text.replace_eq_ok replaced
    obtain ⟨starts, ends⟩ := Change.range_of_ofLengths lengths
    have within := Text.le_size_of_isBoundary stops
    have sizes := edits.size_add
    rw [splice, Text.size_splice ordered within, ends] at sizes
    have newEnd : change.newEnd = start + (Text.ofString inserted).size := by omega
    have nothing : (Text.ofString inserted).size = 0 ↔ inserted = "" :=
      String.utf8ByteSize_eq_zero_iff
    rw [starts, ends, newEnd]
    refine and_congr_right fun atStart => and_congr_left' ?_
    rw [atStart, Nat.zero_add, nothing]

/-- A slice of work notes what it has scanned. -/
theorem process {deadline : Deadline} {scanned : Nat}
    (went : buffer.process deadline = .ok (scanned, after))
    (numbered : after.highlighter.breaks.Numbered) :
    after.Notes ∧ (after.NotesEmpty ↔ scanned = 0 ∧ buffer.NotesEmpty) := by
  obtain ⟨processed, sameText, -⟩ := process_eq_ok went
  obtain ⟨behind, reached, ahead, laid⟩ := StyleCache.Reachable.laid notes.inStep
  obtain ⟨dirty, boundary⟩ := laid.process_dirty processed
  refine ⟨notes.of_audience (notes.inStep.process went numbered).1 ?_ (audience_process went), ?_⟩
  · rw [dirty, sameText]
    exact Span.noted_add notes.noted laid.good.boundary boundary
  · unfold NotesEmpty
    rw [dirty, Span.add_eq_emptied_iff, Span.isEmpty_iff]
    refine and_congr_left' ?_
    show reached.position + scanned ≤ reached.position ↔ scanned = 0
    omega

theorem processUntilIdle {deadline : Nat → Deadline} {work : Work}
    (went : buffer.processUntilIdle deadline = .ok work)
    (numbered : work.buffer.highlighter.breaks.Numbered) :
    work.buffer.Notes ∧ (work.buffer.NotesEmpty ↔ work.scanned = 0 ∧ buffer.NotesEmpty) := by
  refine processUntilIdle_induct (motive := fun scanned after =>
    after.Notes ∧ (after.NotesEmpty ↔ scanned = 0 ∧ buffer.NotesEmpty)) ?_ ⟨notes, by simp⟩ went numbered
  rintro scanned further before after deadline ⟨notes, empty⟩ processed numbered
  obtain ⟨notesAfter, emptyAfter⟩ := notes.process processed numbered
  refine ⟨notesAfter, ?_⟩
  rw [emptyAfter, empty, ← and_assoc]
  refine and_congr_left' ?_
  omega

/-- **Every operation leaves what is noted between characters.** It is the empty range after the
operation if that empties it, or if it was empty and the operation notes nothing. -/
theorem apply (allowed : operation.Allowed Usable (2 ^ 63) buffer.text)
    (went : operation.apply buffer = .ok after) (numbered : after.highlighter.breaks.Numbered) :
    after.Notes ∧ (after.NotesEmpty ↔
      operation.Empties buffer ∨ operation.Silent buffer ∧ buffer.NotesEmpty) := by
  obtain ⟨inStep, sameText⟩ := notes.inStep.apply allowed went numbered
  cases operation with
  | replace start stop inserted =>
    obtain ⟨⟨change, next⟩, replaced, rfl⟩ := Fault.map_eq_ok.mp went
    have small : next.size < 2 ^ 63 := (congrArg Text.size sameText).trans_lt allowed.2
    obtain ⟨notesAfter, empty⟩ := notes.replace small replaced
    exact ⟨notesAfter, empty.trans (by simp [Operation.Silent])⟩
  | process deadline =>
    obtain ⟨⟨scanned, next⟩, processed, rfl⟩ := Fault.map_eq_ok.mp went
    obtain ⟨notesAfter, empty⟩ := notes.process processed numbered
    refine ⟨notesAfter, empty.trans ?_⟩
    simp [Operation.Empties, Operation.Silent, processed]
  | work deadline =>
    obtain ⟨work, worked, rfl⟩ := Fault.map_eq_ok.mp went
    obtain ⟨notesAfter, empty⟩ := notes.processUntilIdle worked numbered
    refine ⟨notesAfter, empty.trans ?_⟩
    simp [Operation.Empties, Operation.Silent, worked]
  | styles position count =>
    obtain ⟨⟨answer, next⟩, asked, rfl⟩ := Fault.map_eq_ok.mp went
    obtain ⟨-, -, same⟩ := styles_eq_ok asked
    obtain ⟨notesAfter, empty⟩ := notes.of_same inStep sameText same (audience_styles asked)
    exact ⟨notesAfter, empty.trans (by simp [Operation.Empties, Operation.Silent])⟩
  | style position =>
    obtain ⟨⟨answer, next⟩, asked, rfl⟩ := Fault.map_eq_ok.mp went
    obtain ⟨-, -, same⟩ := style_eq_ok asked
    obtain ⟨notesAfter, empty⟩ := notes.of_same inStep sameText same (audience_style asked)
    exact ⟨notesAfter, empty.trans (by simp [Operation.Empties, Operation.Silent])⟩
  | flush =>
    cases went
    obtain ⟨notesAfter, full⟩ := notes.flush
    exact ⟨notesAfter, by simp [Operation.Empties, Operation.Silent, full]⟩
  | setGrammar grammar =>
    cases went
    obtain ⟨notesAfter, empty⟩ := notes.setGrammar allowed
    exact ⟨notesAfter, empty.trans (by simp [Operation.Empties, Operation.Silent])⟩
  | listen =>
    cases went
    exact ⟨notes.listen, by simp [Operation.Empties, Operation.Silent, NotesEmpty, Buffer.listen]⟩
  | unlisten id =>
    cases went
    exact ⟨notes.unlisten id,
      by simp [Operation.Empties, Operation.Silent, NotesEmpty, Buffer.unlisten]⟩

/-- So do several of them. The range is empty after them if one has emptied it and none since then has
noted anything. -/
theorem run {operations : List Operation} (allowed : AllAllowed Usable (2 ^ 63) buffer.text operations)
    (numbered : buffer.AllNumbered operations) (went : Buffer.run operations buffer = .ok after) :
    after.Notes ∧ (after.NotesEmpty ↔
      Emptied buffer operations ∨ AllSilent buffer operations ∧ buffer.NotesEmpty) := by
  induction operations generalizing buffer with
  | nil =>
    cases went
    refine ⟨notes, fun empty => .inr ⟨.nil, empty⟩, ?_⟩
    rintro (emptied | ⟨-, empty⟩)
    · cases emptied
    · exact empty
  | cons operation rest ih =>
    obtain ⟨next, applied, went⟩ := Fault.bind_eq_ok.mp went
    obtain ⟨numberedNext, others⟩ := numbered next applied
    obtain ⟨notesNext, emptyNext⟩ := notes.apply allowed.1 applied numberedNext
    have sameText := (notes.inStep.apply allowed.1 applied numberedNext).2
    obtain ⟨notesAfter, empty⟩ := ih notesNext (sameText.symm ▸ allowed.2) others went
    refine ⟨notesAfter, empty.trans ⟨?_, ?_⟩⟩
    · rintro (emptied | ⟨silent, now⟩)
      · exact .inl (.later applied emptied)
      · rcases emptyNext.mp now with empties | ⟨quiet, before⟩
        · exact .inl (.here empties applied silent)
        · exact .inr ⟨.cons quiet applied silent, before⟩
    · rintro (emptied | ⟨silent, before⟩)
      · cases emptied with
        | here empties other silent =>
          cases applied.symm.trans other
          exact .inr ⟨silent, emptyNext.mpr (.inl empties)⟩
        | later other emptied =>
          cases applied.symm.trans other
          exact .inl emptied
      · cases silent with
        | cons quiet other silent =>
          cases applied.symm.trans other
          exact .inr ⟨silent, emptyNext.mpr (.inr ⟨quiet, before⟩)⟩

end Notes

/-! ### Flushes -/

/-- A flush tells one range, to every listener once. The range is between characters of the text. -/
structure Tells (buffer : Buffer) (span : Span) : Prop extends Span.Between buffer.text span where
  range : buffer.flush.1 = some span
  calls : buffer.flush.2.1 = buffer.listeners.map fun id => (id, span)
  distinct : buffer.listeners.Nodup
  inside : span.stop ≤ buffer.size

/-- What is noted is what a flush tells. -/
theorem Notes.tells (notes : buffer.Notes) :
    (buffer.flush.1 = none ∧ buffer.flush.2.1 = [] ∧ buffer.highlighter.dirty = none) ∨
      ∃ span, buffer.Tells span ∧ buffer.highlighter.dirty = some span := by
  cases dirty : buffer.highlighter.dirty with
  | none =>
    refine .inl ?_
    unfold Buffer.flush Highlighter.takeDirty
    rw [dirty]
    exact ⟨rfl, rfl, rfl⟩
  | some span =>
    have between := (notes.noted span dirty).toBetween
    have inside := Text.le_size_of_isBoundary between.stops
    have clipped : span.clip buffer.size = span := by
      unfold Span.clip size
      rw [min_eq_left inside, min_eq_left (between.ordered.trans inside)]
    refine .inr ⟨span, ⟨between, ?_, ?_, notes.distinct, inside⟩, rfl⟩
    · rw [range_flush, dirty, Option.map_some, clipped]
    · unfold Buffer.flush Highlighter.takeDirty
      rw [dirty]
      simp only [clipped]

/-- **What a flush tells after any operations.** It tells nothing to nobody, or one range to every listener
once, which lies between characters of the text. The range is empty exactly if one of the operations has
deleted the text up to the end of what was noted, and none after it has noted anything. There have to be
numbers for the breaks. -/
theorem run_tells {text : Text} {grammar : Grammar} {config : Config} {operations : List Operation}
    (held : text.Held) (usable : Usable grammar) (allowed : AllAllowed Usable (2 ^ 63) text operations)
    (numbered : (ofText text grammar config).AllNumbered operations)
    (went : run operations (ofText text grammar config) = .ok buffer) :
    (buffer.flush.1 = none ∧ buffer.flush.2.1 = []) ∨
      ∃ span, buffer.Tells span ∧
        (span.isEmpty = true ↔ Emptied (ofText text grammar config) operations) := by
  obtain ⟨fresh, full⟩ : (ofText text grammar config).Notes ∧
      ¬ (ofText text grammar config).NotesEmpty := notes_ofText held usable
  obtain ⟨notes, empty⟩ := fresh.run allowed numbered went
  rcases notes.tells with ⟨none, nobody, -⟩ | ⟨span, tells, dirty⟩
  · exact .inl ⟨none, nobody⟩
  · refine .inr ⟨span, tells, ?_⟩
    have emptied : span.isEmpty = true ↔ buffer.NotesEmpty := by
      unfold NotesEmpty
      rw [dirty, Option.some_inj]
      exact ⟨(notes.noted span dirty).emptied, fun same => by rw [same]; rfl⟩
    rw [emptied, empty]
    exact or_iff_left fun both => full both.2

/-- Somebody listens, and the whole text is deleted. -/
def emptying : List Operation := [.listen, .replace 0 4 ""]

theorem run_tells_emptying :
    ∃ buffer span, (Text.ofString "a(b)").Held ∧ Usable .brackets ∧
      AllAllowed Usable (2 ^ 63) (.ofString "a(b)") emptying ∧
      (ofText (.ofString "a(b)") .brackets ⟨1, 1024⟩).AllNumbered emptying ∧
      run emptying (ofText (.ofString "a(b)") .brackets ⟨1, 1024⟩) = .ok buffer ∧
      buffer.Tells span ∧ buffer.listeners = [0] ∧ span.isEmpty = true ∧
      Emptied (ofText (.ofString "a(b)") .brackets ⟨1, 1024⟩) emptying := by
  have usable : Usable .brackets := ⟨Grammar.wellFormed_brackets, Grammar.lawful_brackets⟩
  have allowed : AllAllowed Usable (2 ^ 63) (.ofString "a(b)") emptying :=
    ⟨trivial, ⟨by decide +kernel, by decide +kernel⟩, trivial⟩
  have numbered : (ofText (.ofString "a(b)") .brackets ⟨1, 1024⟩).AllNumbered emptying :=
    allNumbered_of_short Text.held_brackets usable (show 0 < 1 by decide) (by decide)
      ⟨trivial, ⟨by decide +kernel, by decide +kernel⟩, trivial⟩
  have found : (run emptying (ofText (.ofString "a(b)") .brackets ⟨1, 1024⟩)).map
      (fun buffer => (buffer.flush.1, buffer.listeners)) =
        (.ok (some ⟨0, 0⟩, [0]) : Except Fault _) := by decide +kernel
  obtain ⟨buffer, went, shape⟩ := Fault.map_eq_ok.mp found
  obtain ⟨range, listeners⟩ := Prod.mk.inj shape
  rcases run_tells Text.held_brackets usable allowed numbered went with
    ⟨none, -⟩ | ⟨span, tells, emptied⟩
  · cases range.symm.trans none
  · cases range.symm.trans tells.range
    exact ⟨buffer, _, Text.held_brackets, usable, allowed, numbered, went, tells, listeners, rfl,
      emptied.mp rfl⟩

end Highlight.Buffer
