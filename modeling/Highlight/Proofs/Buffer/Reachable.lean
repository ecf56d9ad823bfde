/-
**A buffer never calls a wrong answer exact.**

* `Buffer.ReachableUnder`: a buffer after any operations in any order, under grammars of some kind;
* `Buffer.Reachable`: the same, with grammars that see no further than they let their regexes;
* `Buffer.Reachable.sound`: its highlighter and its cache are as they should be;
* `Buffer.Reachable.process_of_short`: there always are numbers for the breaks of a text that is not too long;
* `Buffer.Reachable.styles_eq_highlight`: **an exact answer is what highlighting the whole text from
  scratch gives**, also where edits have only been processed in part.
-/

import Highlight.Proofs.Query.Exact
import Highlight.Buffer

namespace Highlight.Buffer

/-- A buffer that any operations have led to, under grammars that are admitted. No text gets too long to be
held, and there are numbers for all slots of the index, as there always are for texts of less than `2 ^ 32`
bytes (`Buffer.Reachable.process_of_short`). -/
inductive ReachableUnder (admitted : Grammar → Prop) : Buffer → Prop where
  | ofText {text : Text} {grammar : Grammar} {config : Config} (held : text.Held)
      (isAdmitted : admitted grammar) (spaced : 1 ≤ config.spacing) :
      ReachableUnder admitted (ofText text grammar config)
  | replace {buffer after : Buffer} {start stop : Nat} {inserted : String} {change : Change}
      (before : ReachableUnder admitted buffer) (small : after.size < 2 ^ 63)
      (went : buffer.replace start stop inserted = .ok (change, after)) :
      ReachableUnder admitted after
  | process {buffer after : Buffer} {deadline : Deadline} {scanned : Nat}
      (before : ReachableUnder admitted buffer)
      (went : buffer.process deadline = .ok (scanned, after))
      (numbered : after.highlighter.breaks.Numbered) : ReachableUnder admitted after
  | styles {buffer after : Buffer} {position count : Nat} {answer : Answer (Array StyleId)}
      (before : ReachableUnder admitted buffer)
      (went : buffer.styles position count = .ok (answer, after)) : ReachableUnder admitted after
  | style {buffer after : Buffer} {position : Nat} {answer : Answer StyleId}
      (before : ReachableUnder admitted buffer)
      (went : buffer.style position = .ok (answer, after)) : ReachableUnder admitted after
  | flush {buffer : Buffer} (before : ReachableUnder admitted buffer) :
      ReachableUnder admitted buffer.flush.2.2
  | setGrammar {buffer : Buffer} {grammar : Grammar} (before : ReachableUnder admitted buffer)
      (isAdmitted : admitted grammar) : ReachableUnder admitted (buffer.setGrammar grammar)
  | listen {buffer : Buffer} (before : ReachableUnder admitted buffer) :
      ReachableUnder admitted buffer.listen.2
  | unlisten {buffer : Buffer} (id : ListenerId) (before : ReachableUnder admitted buffer) :
      ReachableUnder admitted (buffer.unlisten id).2

/-- A buffer that operations have led to, where no grammar lets a regex see further than it says. -/
def Reachable (buffer : Buffer) : Prop :=
  buffer.ReachableUnder fun grammar => grammar.WellFormed ∧ grammar.Local

/-- What is true of a buffer between two operations. -/
structure Sound (buffer : Buffer) : Prop where
  highlighter : ∃ behind reached ahead,
    buffer.highlighter.Sound buffer.text (fun _ => True) behind reached ahead
  cache : buffer.cache.Sound buffer.grammar buffer.text

variable {buffer after : Buffer}

/-! ### Operations -/

/-- An edit of a buffer is one of its text, of which its highlighter and its cache are told. -/
theorem replace_eq_ok {start stop : Nat} {inserted : String} {change : Change}
    (went : buffer.replace start stop inserted = .ok (change, after)) :
    buffer.text.replace start stop inserted = .ok (after.text, change) ∧
      buffer.highlighter.edit change = .ok after.highlighter ∧
      buffer.cache.edit change after.grammar = .ok after.cache := by
  unfold replace at went
  obtain ⟨⟨text, found⟩, replaced, went⟩ := Fault.bind_eq_ok.mp went
  obtain ⟨highlighter, edited, went⟩ := Fault.bind_eq_ok.mp went
  obtain ⟨cache, kept, went⟩ := Fault.bind_eq_ok.mp went
  cases went
  exact ⟨replaced, edited, kept⟩

theorem replace_of_parts {start stop : Nat} {inserted : String} {text : Text} {change : Change}
    {highlighter : Highlighter} {cache : StyleCache}
    (replaced : buffer.text.replace start stop inserted = .ok (text, change))
    (edited : buffer.highlighter.edit change = .ok highlighter)
    (kept : buffer.cache.edit change highlighter.grammar = .ok cache) :
    buffer.replace start stop inserted = .ok (change,
      { buffer with text := text, highlighter := highlighter, cache := cache }) := by
  unfold replace
  simp only [replaced, edited, kept, bind, Except.bind, pure, Except.pure]

theorem process_eq_ok {deadline : Deadline} {scanned : Nat}
    (went : buffer.process deadline = .ok (scanned, after)) :
    buffer.highlighter.process buffer.text deadline = .ok (scanned, after.highlighter) ∧
      after.text = buffer.text ∧ after.cache = buffer.cache := by
  rcases buffer with ⟨text, highlighter, cache, listeners, nextListener⟩
  unfold process at went
  obtain ⟨⟨found, highlighter⟩, processed, went⟩ := Fault.bind_eq_ok.mp went
  cases went
  exact ⟨processed, rfl, rfl⟩

theorem styles_eq_ok {position count : Nat} {answer : Answer (Array StyleId)}
    (went : buffer.styles position count = .ok (answer, after)) :
    buffer.cache.styles buffer.text buffer.highlighter position count = .ok (answer, after.cache) ∧
      after.text = buffer.text ∧ after.highlighter = buffer.highlighter := by
  rcases buffer with ⟨text, highlighter, cache, listeners, nextListener⟩
  unfold styles at went
  obtain ⟨⟨found, cache⟩, answered, went⟩ := Fault.bind_eq_ok.mp went
  cases went
  exact ⟨answered, rfl, rfl⟩

theorem style_eq_ok {position : Nat} {answer : Answer StyleId}
    (went : buffer.style position = .ok (answer, after)) :
    (∃ row, buffer.cache.styles buffer.text buffer.highlighter position 1 = .ok (row, after.cache)) ∧
      after.text = buffer.text ∧ after.highlighter = buffer.highlighter := by
  unfold style StyleCache.style at went
  obtain ⟨⟨found, cache⟩, answered, went⟩ := Fault.bind_eq_ok.mp went
  obtain ⟨⟨row, rest⟩, asked, answered⟩ := Fault.bind_eq_ok.mp answered
  cases answered
  cases went
  exact ⟨⟨row, asked⟩, rfl, rfl⟩

section Flush

variable (buffer)

/-- A flush tells of the noted range, as far as it lies inside of the text. -/
theorem range_flush : buffer.flush.1 = buffer.highlighter.dirty.map (·.clip buffer.size) := by
  unfold flush Highlighter.takeDirty
  cases buffer.highlighter.dirty <;> rfl

@[simp]
theorem text_flush : buffer.flush.2.2.text = buffer.text := by
  unfold flush Highlighter.takeDirty
  cases buffer.highlighter.dirty <;> rfl

@[simp]
theorem highlighter_flush :
    buffer.flush.2.2.highlighter = { buffer.highlighter with dirty := none } := by
  unfold flush Highlighter.takeDirty
  cases buffer.highlighter.dirty <;> rfl

@[simp]
theorem grammar_flush : buffer.flush.2.2.grammar = buffer.grammar := by
  unfold grammar
  rw [highlighter_flush]

variable {buffer}

/-- What is true of a cache also where it forgets a range is true of it after a flush. -/
theorem cache_flush {motive : StyleCache → Prop} (keeps : motive buffer.cache)
    (forgets : ∀ span, motive (buffer.cache.invalidate span)) : motive buffer.flush.2.2.cache := by
  unfold flush Highlighter.takeDirty
  cases buffer.highlighter.dirty with
  | none => exact keeps
  | some span => exact forgets _

end Flush

namespace Sound

theorem replace (sound : buffer.Sound) {start stop : Nat} {inserted : String} {change : Change}
    (small : after.size < 2 ^ 63) (went : buffer.replace start stop inserted = .ok (change, after)) :
    after.grammar = buffer.grammar ∧ after.Sound := by
  obtain ⟨⟨behind, reached, ahead, highlighter⟩, cache⟩ := sound
  obtain ⟨replaced, edited, kept⟩ := replace_eq_ok went
  have edits := Text.edits_of_replace highlighter.held small replaced
  have held := Text.held_of_replace highlighter.held small replaced
  obtain ⟨restart, front, final, rest, highlighterAfter, made⟩ := highlighter.edit_spec edits held
    (fun _ => True) (fun _ _ _ _ => trivial) edited
  have same : after.grammar = buffer.grammar := made.grammar
  rw [same] at kept
  refine ⟨same, ⟨front, final, rest, highlighterAfter⟩, ?_⟩
  rw [same]
  exact cache.edit highlighter.wellFormed highlighter.isLocal highlighter.held held edits kept

theorem process (sound : buffer.Sound) {deadline : Deadline} {scanned : Nat}
    (went : buffer.process deadline = .ok (scanned, after))
    (numbered : after.highlighter.breaks.Numbered) :
    after.grammar = buffer.grammar ∧ after.Sound := by
  obtain ⟨⟨behind, reached, ahead, highlighter⟩, cache⟩ := sound
  obtain ⟨processed, sameText, sameCache⟩ := process_eq_ok went
  obtain ⟨same, worked⟩ := highlighter.process processed numbered
  refine ⟨same, sameText ▸ worked, ?_⟩
  change after.grammar = buffer.grammar at same
  rw [same, sameText, sameCache]
  exact cache

/-- An operation that only changes the cache. -/
theorem answered (sound : buffer.Sound) {position count : Nat} {answer : Answer (Array StyleId)}
    (asked : buffer.cache.styles buffer.text buffer.highlighter position count =
      .ok (answer, after.cache)) (sameText : after.text = buffer.text)
    (same : after.highlighter = buffer.highlighter) : after.Sound := by
  obtain ⟨⟨behind, reached, ahead, highlighter⟩, cache⟩ := sound
  have kept := (StyleCache.styles_spec highlighter cache asked).2
  refine ⟨⟨behind, reached, ahead, ?_⟩, ?_⟩
  · rw [same, sameText]
    exact highlighter
  · unfold grammar
    rw [same, sameText]
    exact kept

theorem flush (sound : buffer.Sound) : buffer.flush.2.2.Sound := by
  obtain ⟨⟨behind, reached, ahead, highlighter⟩, cache⟩ := sound
  refine ⟨⟨behind, reached, ahead, ?_⟩, ?_⟩
  · rw [highlighter_flush, text_flush]
    exact highlighter.takeDirty
  · rw [grammar_flush, text_flush]
    exact cache_flush cache cache.invalidate

end Sound

/-! ### All operations -/

/-- **A buffer that operations have led to is as it should be.** -/
theorem Reachable.sound (reachable : buffer.Reachable) : buffer.Sound := by
  induction reachable with
  | ofText held isAdmitted spaced =>
    exact ⟨⟨_, _, _, Highlighter.sound_ofSize isAdmitted.1 isAdmitted.2 held spaced _⟩,
      StyleCache.sound_empty⟩
  | replace before small went ih => exact (ih.replace small went).2
  | process before went numbered ih => exact (ih.process went numbered).2
  | styles before went ih =>
    obtain ⟨asked, sameText, same⟩ := styles_eq_ok went
    exact ih.answered asked sameText same
  | style before went ih =>
    obtain ⟨⟨row, asked⟩, sameText, same⟩ := style_eq_ok went
    exact ih.answered asked sameText same
  | flush before ih => exact ih.flush
  | setGrammar before isAdmitted ih =>
    obtain ⟨behind, reached, ahead, highlighter⟩ := ih.highlighter
    exact ⟨⟨_, _, _, highlighter.setGrammar isAdmitted.1 isAdmitted.2 _⟩, StyleCache.sound_empty⟩
  | listen before ih => exact ⟨ih.highlighter, ih.cache⟩
  | unlisten id before ih => exact ⟨ih.highlighter, ih.cache⟩

/-- There are numbers for all slots. -/
theorem ReachableUnder.numbered {admitted : Grammar → Prop} (reachable : buffer.ReachableUnder admitted) :
    buffer.highlighter.breaks.Numbered := by
  have one : 1 ≤ BreakIndex.idRange := by decide
  induction reachable with
  | ofText => exact one
  | replace before small went ih => exact Highlighter.slots_of_edit ih (replace_eq_ok went).2.1
  | process before went numbered => exact numbered
  | styles before went ih => exact (styles_eq_ok went).2.2 ▸ ih
  | style before went ih => exact (style_eq_ok went).2.2 ▸ ih
  | flush before ih =>
    rw [highlighter_flush]
    exact ih
  | setGrammar => exact one
  | listen before ih => exact ih
  | unlisten id before ih => exact ih

/-- **There always are numbers for the breaks of a text that is not too long.** -/
theorem Reachable.process_of_short (reachable : buffer.Reachable) (short : buffer.size < 2 ^ 32)
    {deadline : Deadline} {scanned : Nat} (went : buffer.process deadline = .ok (scanned, after)) :
    after.Reachable := by
  obtain ⟨⟨behind, reached, ahead, highlighter⟩, -⟩ := reachable.sound
  exact .process reachable went
    (highlighter.slots_of_process short le_rfl reachable.numbered (process_eq_ok went).1)

/-! ### Answers -/

/-- Whatever is called exact under a grammar is the piece that was asked for of the styles of the whole
text, highlighted from scratch with any number of bytes searched at a time: after any operations, also
where edits have only been processed in part. -/
def AnswersExactly (grammar : Grammar) : Prop :=
  ∀ {buffer after : Buffer} {position count unit : Nat} {value : Array StyleId},
    buffer.Reachable → buffer.grammar = grammar →
      buffer.styles position count = .ok (.exact value, after) → buffer.size + unit ≤ maxSize →
        ∃ all, grammar.highlight buffer.text unit = .ok all ∧
          value = all.extract (min position buffer.size) (min (position + count) buffer.size)

/-- **An exact answer is what highlighting the whole text gives**, if the grammar is blank where it has
no patterns. -/
theorem Reachable.styles_eq_highlight (reachable : buffer.Reachable)
    (blank : buffer.grammar.IsBlank) {position count : Nat} {value : Array StyleId}
    (went : buffer.styles position count = .ok (.exact value, after)) {unit : Nat}
    (fits : buffer.size + unit ≤ maxSize) :
    ∃ all, buffer.grammar.highlight buffer.text unit = .ok all ∧
      value = all.extract (min position buffer.size) (min (position + count) buffer.size) := by
  obtain ⟨⟨behind, reached, ahead, highlighter⟩, cache⟩ := reachable.sound
  obtain ⟨asked, -, -⟩ := styles_eq_ok went
  obtain ⟨styles, final, walk, ended, piece⟩ :=
    (StyleCache.styles_spec highlighter cache asked).1 blank value rfl
  exact ⟨styles.toArray, Grammar.highlight_of_walk highlighter.wellFormed highlighter.isLocal
    highlighter.held walk ended fits, piece⟩

/-- Without patterns all bytes are said to have the default style. -/
theorem styles_ofText {text : Text} {grammar : Grammar} {config : Config} (held : text.Held)
    (plain : grammar.hasPatterns = false) :
    (ofText text grammar config).styles 0 text.size =
      .ok (.exact (Array.replicate text.size defaultStyle), ofText text grammar config) := by
  have start : min 0 text.size = 0 := Nat.zero_min _
  have stop : min (saturatingAdd 0 text.size) text.size = text.size := by
    have small := held.size_lt_maxSize
    unfold saturatingAdd
    omega
  unfold styles StyleCache.styles ofText
  simp only [start, stop]
  rw [if_pos (by show ¬ grammar.hasPatterns = true; rw [plain]; exact Bool.false_ne_true)]
  rfl

/-- **What is called exact is so under just those grammars that are blank where they have no
patterns.** -/
theorem answersExactly_iff_isBlank {grammar : Grammar} (wellFormed : grammar.WellFormed)
    (isLocal : grammar.Local) : AnswersExactly grammar ↔ grammar.IsBlank := by
  constructor
  · intro answers plain text all held went
    have fresh : (ofText text grammar ⟨1, 1024⟩).Reachable :=
      ReachableUnder.ofText held ⟨wellFormed, isLocal⟩ (show 1 ≤ 1 from le_rfl)
    obtain ⟨found, same, piece⟩ := answers fresh rfl (styles_ofText held plain)
      (show text.size + 0 ≤ maxSize from held.size_lt_maxSize.le)
    cases went.symm.trans same
    have size := Grammar.size_of_highlight wellFormed isLocal held went
    change Array.replicate text.size defaultStyle =
      all.extract (min 0 text.size) (min (0 + text.size) text.size) at piece
    rw [Nat.zero_min, Nat.zero_add, min_self, ← size, Array.extract_size] at piece
    exact piece.symm
  · intro blank buffer after position count unit value reachable same went fits
    subst same
    exact reachable.styles_eq_highlight blank went fits

theorem answersExactly_brackets :
    Grammar.brackets.WellFormed ∧ Grammar.brackets.Local ∧ AnswersExactly .brackets ∧
      ∃ buffer after, Reachable buffer ∧ buffer.text = .ofString "a(bc)" ∧
        buffer.needsProcessing = true ∧ buffer.styles 0 3 = .ok (.exact #[0, 1, 1], after) ∧
        ∃ all, Grammar.brackets.highlight buffer.text 2 = .ok all ∧ #[0, 1, 1] = all.extract 0 3 := by
  have run : (do
      let worked ← (ofText (.ofString "a(b)") .brackets ⟨1, 1024⟩).process .expired
      let asked ← worked.2.styles 0 1
      let highlighter ← asked.2.highlighter.edit ⟨3, 3, 1⟩
      let cache ← asked.2.cache.edit ⟨3, 3, 1⟩ highlighter.grammar
      let answer ← styles { asked.2 with
        text := .ofString "a(bc)", highlighter := highlighter, cache := cache } 0 3
      return (answer.1, highlighter.needsProcessing,
        decide worked.2.highlighter.breaks.Numbered)) =
        (.ok (.exact #[0, 1, 1], true, true) : Except Fault (Answer (Array StyleId) × Bool × Bool)) := by
    decide +kernel
  obtain ⟨⟨scanned, worked⟩, processed, run⟩ := Fault.bind_eq_ok.mp run
  obtain ⟨⟨first, asked⟩, answered, run⟩ := Fault.bind_eq_ok.mp run
  obtain ⟨highlighter, edited, run⟩ := Fault.bind_eq_ok.mp run
  obtain ⟨cache, kept, run⟩ := Fault.bind_eq_ok.mp run
  obtain ⟨⟨answer, after⟩, answeredToo, run⟩ := Fault.bind_eq_ok.mp run
  simp only [Fault.pure_eq_ok, Prod.mk.injEq, decide_eq_true_eq] at run
  obtain ⟨rfl, pending, numbered⟩ := run
  have fresh : Reachable (ofText (.ofString "a(b)") .brackets ⟨1, 1024⟩) :=
    ReachableUnder.ofText Text.held_brackets
      ⟨Grammar.wellFormed_brackets, Grammar.isLocal_brackets⟩ (by decide)
  have sameText : asked.text = .ofString "a(b)" :=
    (styles_eq_ok answered).2.1.trans (process_eq_ok processed).2.1
  have replaced := replace_of_parts (sameText ▸ Text.replace_brackets) edited kept
  have small : (Text.ofString "a(bc)").size < 2 ^ 63 := by decide
  have before : Reachable asked := (ReachableUnder.process fresh processed numbered).styles answered
  have reachable : Reachable { asked with
      text := .ofString "a(bc)", highlighter := highlighter, cache := cache } :=
    ReachableUnder.replace before small replaced
  have askedGrammar : asked.grammar = .brackets :=
    (congrArg Highlighter.grammar (styles_eq_ok answered).2.2).trans
      (fresh.sound.process processed numbered).1
  have sameGrammar : highlighter.grammar = .brackets := by
    refine (before.sound.replace ?_ replaced).1.trans askedGrammar
    exact small
  have exactly : AnswersExactly .brackets :=
    (answersExactly_iff_isBlank Grammar.wellFormed_brackets Grammar.isLocal_brackets).mpr
      Grammar.isBlank_brackets
  exact ⟨Grammar.wellFormed_brackets, Grammar.isLocal_brackets, exactly, _, after, reachable, rfl,
    pending, answeredToo, exactly reachable sameGrammar answeredToo
      (show (Text.ofString "a(bc)").size + 2 ≤ maxSize by decide)⟩

end Highlight.Buffer
