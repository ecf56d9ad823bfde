/-
**Styles outside of the flushed range have not changed.**

* `Buffer.Unflushed`: a buffer after any edits, slices of work and questions, without a flush;
* `Buffer.Unflushed.covers`: the range that is noted as changed covers every change;
* `Buffer.TellsChanges`: what a flush tells is all that has changed: before it every byte has the style
  it had, and behind it the style of the byte that it was;
* `Buffer.tellsChanges_iff_isSteady`: **this is so under just those grammars that are steady where they
  have no patterns**.
-/

import Highlight.Proofs.Buffer.Reachable
import Highlight.Proofs.Highlighter.Dirty

namespace Highlight.Buffer

open BreakIndex (Entry)

/-- A buffer that edits, slices of work and questions have led to from another one. There are numbers for
all slots of the index. -/
inductive Unflushed (origin : Buffer) : Buffer → Prop where
  | start : Unflushed origin origin
  | replace {buffer after : Buffer} {start stop : Nat} {inserted : String} {change : Change}
      (before : Unflushed origin buffer) (small : after.size < 2 ^ 63)
      (went : buffer.replace start stop inserted = .ok (change, after)) : Unflushed origin after
  | process {buffer after : Buffer} {deadline : Deadline} {scanned : Nat}
      (before : Unflushed origin buffer) (went : buffer.process deadline = .ok (scanned, after))
      (numbered : after.highlighter.breaks.Numbered) : Unflushed origin after
  | styles {buffer after : Buffer} {position count : Nat} {answer : Answer (Array StyleId)}
      (before : Unflushed origin buffer)
      (went : buffer.styles position count = .ok (answer, after)) : Unflushed origin after
  | style {buffer after : Buffer} {position : Nat} {answer : Answer StyleId}
      (before : Unflushed origin buffer)
      (went : buffer.style position = .ok (answer, after)) : Unflushed origin after

variable {buffer origin after : Buffer} {original : Text} {old : List StyleId}

/-- The range that is noted as changed covers every change since the original text. -/
def Covered (original : Text) (old : List StyleId) (buffer : Buffer) : Prop :=
  ∃ behind reached ahead, Highlighter.Covers original old buffer.text buffer.highlighter behind reached ahead

/-- Where nothing is left to process, nothing has changed right after a flush. -/
theorem Sound.covered_flush (sound : buffer.Sound) (idle : buffer.needsProcessing = false)
    {final : Spot} (walk : buffer.grammar.Walk buffer.text .initial old final)
    (ended : final.position = buffer.size) : buffer.flush.2.2.Covered buffer.text old := by
  obtain ⟨behind, reached, ahead, highlighter⟩ := sound.highlighter
  have length := walk.length_initial highlighter.wellFormed highlighter.isLocal highlighter.held
  change final.position = buffer.text.size at ended
  obtain ⟨unmarked, rfl, -⟩ := highlighter.idle idle
  have keeps : Break.first.Keeps buffer.grammar buffer.text old 0 :=
    ⟨old, final, walk, ended, List.suffix_rfl⟩
  unfold Covered
  rw [highlighter_flush, text_flush]
  refine ⟨behind, reached, [], ⟨⟨⟨highlighter.held, highlighter.spaced, ?_, highlighter.idle,
    highlighter.plain⟩, highlighter.wellFormed, highlighter.isLocal⟩, ?_, fun _ => keeps, ?_,
    Nat.zero_le _, ?_, ?_⟩⟩
  · exact { highlighter.tracks with kept := fun _ member => nomatch member }
  · exact fun _ _ _ _ _ _ => Or.inl rfl
  · intro pending
    cases idle.symm.trans pending
  · show buffer.text.size ≤ 0 + old.length
    omega
  · exact fun _ span member => nomatch member

/-- **Whatever has changed since a flush is noted.** -/
theorem Unflushed.covered (run : Unflushed origin buffer) (covered : origin.Covered original old)
    (steady : origin.grammar.maxExtend < maxSize → origin.grammar.IsSteady) :
    buffer.grammar = origin.grammar ∧ buffer.Covered original old := by
  induction run with
  | start => exact ⟨rfl, covered⟩
  | @replace buffer after start stop inserted change before small went ih =>
    obtain ⟨same, behind, reached, ahead, covers⟩ := ih
    obtain ⟨replaced, edited, -⟩ := replace_eq_ok went
    have edits := Text.edits_of_replace covers.sound.held small replaced
    have held := Text.held_of_replace covers.sound.held small replaced
    have seen : buffer.grammar.maxExtend < maxSize := Highlighter.lt_maxSize_of_edit edited
    have steadyHere : buffer.grammar.IsSteady := by
      rw [same] at seen ⊢
      exact steady seen
    obtain ⟨sameGrammar, further⟩ := covers.edit steadyHere edits held edited
    exact ⟨sameGrammar.trans same, further⟩
  | @process buffer after deadline scanned before went numbered ih =>
    obtain ⟨same, behind, reached, ahead, covers⟩ := ih
    obtain ⟨processed, sameText, -⟩ := process_eq_ok went
    obtain ⟨sameGrammar, front, final, rest, further⟩ := covers.process processed numbered
    exact ⟨sameGrammar.trans same, front, final, rest, sameText ▸ further⟩
  | styles before went ih =>
    obtain ⟨-, sameText, same⟩ := styles_eq_ok went
    unfold Covered grammar at ih ⊢
    rw [same, sameText]
    exact ih
  | style before went ih =>
    obtain ⟨-, sameText, same⟩ := style_eq_ok went
    unfold Covered grammar at ih ⊢
    rw [same, sameText]
    exact ih

/-! ### Flushes -/

/-- An entry of a list whose end is that of another one. -/
theorem getElem?_of_suffix {new : List StyleId} {bound position : Nat}
    (suffix : new.drop bound <:+ old) (behind : bound ≤ position) (inside : position < new.length) :
    new.length ≤ position + old.length ∧
      new[position]? = old[position + old.length - new.length]? := by
  obtain ⟨front, rfl⟩ := suffix
  rw [List.length_append, List.length_drop]
  refine ⟨by omega, ?_⟩
  rw [List.getElem?_append_right (by omega), List.getElem?_drop]
  congr 1
  omega

/-- A byte before the range that is noted as changed has the style it had. -/
theorem getElem?_of_covers {highlighter : Highlighter} {text : Text} {behind ahead : List Entry}
    {reached : Break} (covers : Highlighter.Covers original old text highlighter behind reached ahead)
    (heldOriginal : original.Held) {last lastToo : Spot} {new : List StyleId}
    (before : highlighter.grammar.Walk original .initial old last)
    (ended : last.position = original.size)
    (walk : highlighter.grammar.Walk text .initial new lastToo) (endedToo : lastToo.position = text.size)
    (idle : highlighter.needsProcessing = false) {span : Span} (noted : highlighter.dirty = some span)
    {position : Nat} (inside : position < text.size) (inFront : position < span.start) :
    new[position]? = old[position]? := by
  have wellFormed := covers.sound.wellFormed
  have isLocal := covers.sound.isLocal
  cases patterned : highlighter.grammar.hasPatterns with
  | false =>
    have start := covers.plain patterned span noted
    omega
  | true =>
    have same := covers.front patterned (position + 1) (Nat.succ_pos _) inside
      (fun other member => by
        rw [noted] at member
        cases member
        exact inFront)
      (fun pending => by cases idle.symm.trans pending)
    rcases same with rfl | ⟨stop, beyond, same⟩
    · rw [(walk.unique before endedToo.ge ended.ge).1]
    · exact (before.getElem?_eq wellFormed isLocal heldOriginal covers.sound.held same walk
        (Spot.good_initial _ _) ended.ge endedToo.ge
        (show 0 + position + highlighter.grammar.maxExtend < stop by omega)).symm

/-- What a flush tells under a grammar is all that has changed. A buffer with nothing left to process has
been flushed, and then been edited and processed until nothing is left. Of the new text every byte
before the range that the next flush tells has the style it had before, and every byte behind it has
the style that the byte had which it was. -/
def TellsChanges (grammar : Grammar) : Prop :=
  ∀ {buffer after : Buffer} {unit other : Nat}, buffer.Reachable → buffer.grammar = grammar →
    buffer.needsProcessing = false → Unflushed buffer.flush.2.2 after →
      after.needsProcessing = false → buffer.size + unit ≤ maxSize → after.size + other ≤ maxSize →
        ∃ old new, grammar.highlight buffer.text unit = .ok old ∧
          grammar.highlight after.text other = .ok new ∧
          old.size = buffer.size ∧ new.size = after.size ∧
          ∀ position < after.size,
            (position < (after.flush.1.getD ⟨0, 0⟩).start → new[position]? = old[position]?) ∧
            ((after.flush.1.getD ⟨0, 0⟩).stop ≤ position →
              after.size ≤ position + buffer.size ∧
                new[position]? = old[position + buffer.size - after.size]?)

/-- **What a flush tells is all that has changed**, if the grammar is steady where it has no patterns. A
grammar that sees further than a size can tell does not need to be: no text is edited under it. -/
theorem tellsChanges_of_isSteady {grammar : Grammar}
    (steady : grammar.maxExtend < maxSize → grammar.IsSteady) : TellsChanges grammar := by
  intro buffer after unit other reachable sameGrammar idle run idleAfter fits fitsToo
  subst sameGrammar
  have sound := reachable.sound
  obtain ⟨behind, reached, ahead, highlighter⟩ := sound.highlighter
  obtain ⟨old, last, before, -, endedBefore⟩ := Grammar.exists_walk_to_end highlighter.wellFormed
    highlighter.isLocal highlighter.held (Spot.good_initial buffer.grammar buffer.text)
  have flushed := grammar_flush buffer
  obtain ⟨same, front, final, rest, covers⟩ :=
    run.covered (sound.covered_flush idle before endedBefore) (by rwa [flushed])
  obtain ⟨new, lastAfter, walk, ended, suffix⟩ := covers.back idleAfter
  have sameGrammar : after.grammar = buffer.grammar := same.trans flushed
  have beforeToo : after.grammar.Walk buffer.text .initial old last := sameGrammar ▸ before
  have oldLength := before.length_initial highlighter.wellFormed highlighter.isLocal highlighter.held
  have newLength := walk.length_initial covers.sound.wellFormed covers.sound.isLocal covers.sound.held
  change last.position = buffer.size at endedBefore
  change lastAfter.position = after.size at ended
  change new.drop (Span.bound after.highlighter.dirty - 0) <:+ old at suffix
  have found := Grammar.highlight_of_walk covers.sound.wellFormed covers.sound.isLocal
    covers.sound.held walk ended fitsToo
  refine ⟨old.toArray, new.toArray, Grammar.highlight_of_walk highlighter.wellFormed
    highlighter.isLocal highlighter.held before endedBefore fits, sameGrammar ▸ found, ?_, ?_, ?_⟩
  · rw [List.size_toArray, oldLength, endedBefore]
  · rw [List.size_toArray, newLength, ended]
  · intro position inside
    rw [range_flush, List.getElem?_toArray, List.getElem?_toArray, List.getElem?_toArray]
    constructor
    · intro inFront
      cases noted : after.highlighter.dirty with
      | none =>
        rw [noted] at inFront
        exact absurd inFront (Nat.not_lt_zero _)
      | some span =>
        rw [noted] at inFront
        exact getElem?_of_covers covers highlighter.held beforeToo endedBefore walk ended idleAfter
          noted inside (lt_of_lt_of_le inFront (min_le_left _ _))
    · intro beyond
      have bound : Span.bound after.highlighter.dirty - 0 ≤ position := by
        cases noted : after.highlighter.dirty with
        | none => exact Nat.zero_le _
        | some span =>
          rw [noted] at beyond
          change min span.stop after.size ≤ position at beyond
          show span.stop - 0 ≤ position
          omega
      have shown := getElem?_of_suffix suffix bound (by omega)
      rwa [show old.length = buffer.size by omega, show new.length = after.size by omega] at shown

/-- Without patterns a text may be edited right after it has been flushed, and the next flush tells no
more than where it has been edited. -/
theorem exists_unflushed {text edited : Text} {grammar : Grammar} {config : Config} {change : Change}
    {start stop : Nat} {inserted : String} (plain : grammar.hasPatterns = false)
    (small : grammar.maxExtend < maxSize) (sizeLt : edited.size < 2 ^ 63)
    (replaced : text.replace start stop inserted = .ok (edited, change)) :
    ∃ after, Unflushed (ofText text grammar config).flush.2.2 after ∧ after.text = edited ∧
      after.needsProcessing = false ∧ (after.flush.1.getD ⟨0, 0⟩).stop ≤ change.newEnd := by
  have unedited : (ofText text grammar config).flush.2.2.text = text := text_flush _
  have clean : (ofText text grammar config).flush.2.2.highlighter =
      ⟨grammar, config, .initial, BreakIndex.first, none, none, false, none⟩ := by
    rw [highlighter_flush, ← plain]
    rfl
  have empty : (ofText text grammar config).flush.2.2.cache = .empty :=
    cache_flush (motive := fun cache => cache = .empty) rfl fun _ => rfl
  have edit := Highlighter.edit_initial config small change
  have went := replace_of_parts (unedited.symm ▸ replaced) (clean ▸ edit)
    (show (ofText text grammar config).flush.2.2.cache.edit change grammar = .ok .empty by
      rw [empty]
      rfl)
  refine ⟨_, .replace .start ?_ went, rfl, plain, ?_⟩
  · exact sizeLt
  · rw [range_flush]
    show (((Span.add none ⟨0, change.newEnd⟩).map (Span.clip · edited.size)).getD ⟨0, 0⟩).stop ≤ _
    unfold Span.add
    split
    · exact Nat.zero_le _
    · exact min_le_left _ _

/-- **What a flush tells is all that has changed under just those grammars that are steady where they
have no patterns.** -/
theorem tellsChanges_iff_isSteady {grammar : Grammar} (wellFormed : grammar.WellFormed)
    (isLocal : grammar.Local) :
    TellsChanges grammar ↔ (grammar.maxExtend < maxSize → grammar.IsSteady) := by
  refine ⟨fun tells small plain => ?_, tellsChanges_of_isSteady⟩
  intro first second start place all others held heldToo same went wentToo
  obtain ⟨inserted, change, replaced, newEnd⟩ := Text.exists_replace_of_sameFrom held heldToo same
  have fresh : (ofText first grammar ⟨1, 1024⟩).Reachable :=
    ReachableUnder.ofText held ⟨wellFormed, isLocal⟩ (show 1 ≤ 1 from le_rfl)
  obtain ⟨after, run, sameText, idle, upTo⟩ :=
    exists_unflushed plain small heldToo.size_lt replaced
  have fits : after.text.size + 0 ≤ maxSize := sameText ▸ heldToo.size_lt_maxSize.le
  obtain ⟨old, new, before, behind, oldSize, newSize, outside⟩ :=
    tells fresh rfl plain run idle (show first.size + 0 ≤ maxSize from held.size_lt_maxSize.le) fits
  rw [sameText] at behind
  cases went.symm.trans before
  cases wentToo.symm.trans behind
  have sizes := same.size_add
  have afterSize : after.size = second.size := congrArg Text.size sameText
  change all.size = first.size at oldSize
  apply List.ext_getElem?
  intro index
  rw [List.getElem?_drop, List.getElem?_drop, Array.getElem?_toList, Array.getElem?_toList]
  rcases lt_or_ge (place + index) after.size with inside | ended
  · have kept := ((outside (place + index) inside).2 (by omega)).2
    change others[place + index]? = all[place + index + first.size - after.size]? at kept
    rw [kept]
    congr 1
    omega
  · rw [Array.getElem?_eq_none (by omega), Array.getElem?_eq_none (by omega)]

theorem tellsChanges_brackets :
    Grammar.brackets.WellFormed ∧ Grammar.brackets.Local ∧ TellsChanges .brackets ∧
      ∃ buffer after, Reachable buffer ∧ buffer.needsProcessing = false ∧
        Unflushed buffer.flush.2.2 after ∧ after.needsProcessing = false ∧
        after.flush.1 = some ⟨1, 5⟩ ∧
        ∃ old new, Grammar.brackets.highlight buffer.text 2 = .ok old ∧
          Grammar.brackets.highlight after.text 2 = .ok new ∧ new[0]? = old[0]? := by
  have run : (do
      let worked ← (ofText (.ofString "a(b)") .brackets ⟨1, 1024⟩).process .never
      let clean := worked.2.flush.2.2
      let highlighter ← clean.highlighter.edit ⟨3, 3, 1⟩
      let cache ← clean.cache.edit ⟨3, 3, 1⟩ highlighter.grammar
      let after ← process { clean with
        text := .ofString "a(bc)", highlighter := highlighter, cache := cache } .never
      return (worked.2.needsProcessing, after.2.needsProcessing, after.2.flush.1,
        decide worked.2.highlighter.breaks.Numbered, decide after.2.highlighter.breaks.Numbered)) =
        (.ok (false, false, some ⟨1, 5⟩, true, true) :
          Except Fault (Bool × Bool × Option Span × Bool × Bool)) := by
    decide +kernel
  obtain ⟨⟨scanned, worked⟩, processed, run⟩ := Fault.bind_eq_ok.mp run
  obtain ⟨highlighter, edited, run⟩ := Fault.bind_eq_ok.mp run
  obtain ⟨cache, kept, run⟩ := Fault.bind_eq_ok.mp run
  obtain ⟨⟨further, after⟩, processedToo, run⟩ := Fault.bind_eq_ok.mp run
  simp only [Fault.pure_eq_ok, Prod.mk.injEq, decide_eq_true_eq] at run
  obtain ⟨idle, idleAfter, flushed, numbered, numberedAfter⟩ := run
  have fresh : Reachable (ofText (.ofString "a(b)") .brackets ⟨1, 1024⟩) :=
    ReachableUnder.ofText Text.held_brackets
      ⟨Grammar.wellFormed_brackets, Grammar.isLocal_brackets⟩ (by decide)
  have reachable : Reachable worked := ReachableUnder.process fresh processed numbered
  have sameText : worked.text = .ofString "a(b)" := (process_eq_ok processed).2.1
  have cleanText := (text_flush worked).trans sameText
  have afterText : after.text = .ofString "a(bc)" := (process_eq_ok processedToo).2.1
  have small : (Text.ofString "a(bc)").size < 2 ^ 63 := by decide
  have replaced := replace_of_parts (cleanText ▸ Text.replace_brackets) edited kept
  have edits : Unflushed worked.flush.2.2 { worked.flush.2.2 with
      text := .ofString "a(bc)", highlighter := highlighter, cache := cache } :=
    .replace .start small replaced
  have unflushed : Unflushed worked.flush.2.2 after := edits.process processedToo numberedAfter
  have fits : worked.size + 2 ≤ maxSize := by
    unfold size
    rw [sameText]
    decide
  have fitsToo : after.size + 2 ≤ maxSize := by
    unfold size
    rw [afterText]
    decide
  have tells : TellsChanges .brackets :=
    (tellsChanges_iff_isSteady Grammar.wellFormed_brackets Grammar.isLocal_brackets).mpr
      fun _ => Grammar.isSteady_brackets
  obtain ⟨old, new, before, behind, -, -, outside⟩ :=
    tells reachable (fresh.sound.process processed numbered).1 idle unflushed idleAfter fits fitsToo
  have inside : 0 < after.size := by
    unfold size
    rw [afterText]
    decide
  refine ⟨Grammar.wellFormed_brackets, Grammar.isLocal_brackets, tells, worked, after, reachable,
    idle, unflushed, idleAfter, flushed, old, new, before, behind, ?_⟩
  exact (outside 0 inside).1 (by rw [flushed]; exact Nat.zero_lt_one)

end Highlight.Buffer
