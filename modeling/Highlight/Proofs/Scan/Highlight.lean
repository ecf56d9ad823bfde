/-
**The styles of a text do not depend on how it is scanned.**

* `Scanner.run_row`: a scan adds the styles of a walk of the machine to a row;
* `Grammar.highlight_eq_walk`: **the styles of a text are those that the machine gives it, whatever
  the number of bytes that are searched at a time**;
* `Grammar.resume_of_walk`: from any spot that the machine gets to, the rest of the styles can be had by
  a scan that begins there.
-/

import Highlight.Proofs.Grammar.Brackets
import Highlight.Proofs.Scan.Run

namespace Highlight

variable {grammar : Grammar} {text : Text}

/-! ### Rows -/

/-- A row that has grown by the styles of a walk from a spot. -/
structure StyleRow.Grown (grammar : Grammar) (text : Text) (before : StyleRow) (spot : Spot)
    (row : StyleRow) (state : ScanState) : Prop where
  start : row.start = before.start
  stop : row.stop = state.position
  walk : ∃ styles, grammar.Walk text spot styles state.spot ∧
    row.styles = before.styles ++ styles.toArray

/-- Painting tokens keeps the row in step with the scan. -/
theorem StyleRow.sink_keeps (before : StyleRow) (spot : Spot) :
    StyleRow.sink.Keeps grammar text (grammar.Leg text) (before.Grown grammar text spot)
      fun _ _ => False := by
  constructor
  · intro row state move good grown leg silent
    obtain ⟨styles, walk, painted⟩ := grown.walk
    have further := leg.walk
    rw [silent] at further
    refine ⟨grown.start, grown.stop.trans (leg.silent silent), styles, ?_, painted⟩
    have joined := walk.trans further
    rwa [Option.elim_none, List.append_nil] at joined
  · intro row state move token after flow good grown leg delivered taken
    cases taken
    obtain ⟨styles, walk, painted⟩ := grown.walk
    obtain ⟨sound, starts, stops, -⟩ := leg.token token delivered
    have further := leg.walk
    rw [delivered] at further
    have behind := grown.stop.trans starts.symm
    have stop := (row.stop_paint sound behind).trans stops
    rw [row.paint_append sound behind] at stop ⊢
    refine ⟨grown.start, stop, styles ++ token.styles, walk.trans further, ?_⟩
    simp only [painted, Array.append_assoc, ← List.append_toArray]

section Rows

variable (scanner : Scanner) (wellFormed : scanner.grammar.WellFormed)
  (isLocal : scanner.grammar.Local) (held : text.Held) (positive : 0 < scanner.unit)
  {state : ScanState} (good : state.Good scanner.grammar text) (row : StyleRow)
  (inStep : row.stop = state.position)
include wellFormed isLocal held positive good inStep

theorem Scanner.run_grown (overflow : Prop)
    (fits : state.position < text.size → state.position + scanner.unit ≤ maxSize ∨ overflow)
    (limit : Nat) :
    StyleRow.sink.Ends overflow (fun (after, final, ending) => final.Good scanner.grammar text ∧
        min limit text.size ≤ final.position ∧ (ending = .endOfText ↔ text.size ≤ final.position) ∧
        row.Grown scanner.grammar text state.spot after final)
      (scanner.run text StyleRow.sink limit state row) := by
  have start : row.Grown scanner.grammar text state.spot row state :=
    ⟨rfl, inStep, [], .refl _, by simp⟩
  refine (scanner.run_ends (Grammar.makes_leg wellFormed isLocal held) held
    (row.sink_keeps state.spot) limit fits positive good start).mono ?_
  rintro ⟨after, final, ending⟩ ⟨goodFinal, ⟨grown, further, ended⟩ | ⟨never, -⟩⟩
  · exact ⟨goodFinal, further, ended, grown⟩
  · exact never.elim

/-- **A scan adds the styles of a walk to a row.** -/
theorem Scanner.run_row
    (fits : state.position < text.size → state.position + scanner.unit ≤ maxSize) (limit : Nat) :
    ∃ after final ending, scanner.run text StyleRow.sink limit state row =
        .ok (after, final, ending) ∧
      final.Good scanner.grammar text ∧ min limit text.size ≤ final.position ∧
      (ending = .endOfText ↔ text.size ≤ final.position) ∧
      row.Grown scanner.grammar text state.spot after final := by
  obtain ⟨⟨after, final, ending⟩, went, outcome⟩ :=
    (scanner.run_grown wellFormed isLocal held positive good row inStep False
      (fun inside => Or.inl (fits inside)) limit).exists_ok id fun row token state => ⟨_, rfl⟩
  exact ⟨after, final, ending, went, outcome⟩

end Rows

/-! ### Texts -/

namespace Grammar

section Texts

variable (wellFormed : grammar.WellFormed) (isLocal : grammar.Local) (held : text.Held)
include wellFormed isLocal held

/-- A scan that begins at a spot where the machine gets to finds the styles of its walk to the end. -/
theorem run_of_walk {state : ScanState} {styles : List StyleId} {final : Spot}
    (good : state.Good grammar text) (walk : grammar.Walk text state.spot styles final)
    (ended : final.position = text.size) {unit : Nat}
    (fits : state.position < text.size → state.position + unit ≤ maxSize) :
    ∃ after, (Scanner.ofUnit grammar unit).run text StyleRow.sink text.size state
      (.empty state.position) = .ok (⟨state.position, styles.toArray⟩, after, .endOfText) := by
  have positive := Scanner.unit_pos grammar unit
  have small := held.size_lt
  have unitFits : state.position < text.size →
      state.position + (Scanner.ofUnit grammar unit).unit ≤ maxSize := by
    intro inside
    have := fits inside
    show state.position + max unit 1 ≤ maxSize
    unfold maxSize at this ⊢
    omega
  obtain ⟨row, after, ending, went, goodAfter, further, endOfText, grown⟩ :=
    (Scanner.ofUnit grammar unit).run_row wellFormed isLocal held positive good
      (.empty state.position) rfl unitFits text.size
  rw [min_self] at further
  obtain ⟨others, walked, painted⟩ := grown.walk
  obtain ⟨rfl, -⟩ := walk.unique walked ended.ge further
  have row_eq : row = ⟨state.position, others.toArray⟩ := by
    rcases row with ⟨start, rowStyles⟩
    rw [StyleRow.mk.injEq]
    exact ⟨grown.start, painted.trans (Array.empty_append)⟩
  rw [row_eq, endOfText.mpr further] at went
  exact ⟨after, went⟩

/-- The styles of a text are those of the walk to its end, if the first window ends at a size. -/
theorem highlight_of_walk_of_le {styles : List StyleId} {final : Spot}
    (walk : grammar.Walk text .initial styles final) (ended : final.position = text.size)
    {unit : Nat} (small : unit ≤ maxSize) : grammar.highlight text unit = .ok styles.toArray := by
  have good : ScanState.initial.Good grammar text :=
    ScanState.good_startingAt (Text.isBoundary_zero text) (PatternStack.known_root grammar)
  obtain ⟨after, went⟩ := run_of_walk wellFormed isLocal held good walk ended fun _ =>
    (Nat.zero_add unit).trans_le small
  unfold highlight
  rw [Fault.bind_eq_ok]
  exact ⟨_, went, rfl⟩

/-- The styles of a text are those of the walk to its end. -/
theorem highlight_of_walk {styles : List StyleId} {final : Spot}
    (walk : grammar.Walk text .initial styles final) (ended : final.position = text.size)
    {unit : Nat} (fits : text.size + unit ≤ maxSize) :
    grammar.highlight text unit = .ok styles.toArray :=
  highlight_of_walk_of_le wellFormed isLocal held walk ended (by omega)

/-- **A scan that is taken up where the machine gets to finds the rest of the styles.** -/
theorem resume_of_walk {state : ScanState} {styles : List StyleId} (good : state.Good grammar text)
    (walk : grammar.Walk text .initial styles state.spot) :
    ∃ all, (∀ unit ≤ maxSize, grammar.highlight text unit = .ok all) ∧
      ∀ other, (state.position < text.size → state.position + other ≤ maxSize) →
        ∃ after, (Scanner.ofUnit grammar other).run text StyleRow.sink text.size state
          (.empty state.position) =
            .ok (⟨state.position, all.extract state.position all.size⟩, after, .endOfText) := by
  obtain ⟨rest, final, further, -, ended⟩ := exists_walk_to_end wellFormed isLocal held good.spot
  have length : styles.length = state.position := walk.length_initial wellFormed isLocal held
  have tail : (styles ++ rest).toArray.extract state.position (styles ++ rest).toArray.size =
      rest.toArray := by
    rw [← length]
    simp
  refine ⟨(styles ++ rest).toArray, fun unit small => highlight_of_walk_of_le wellFormed isLocal held
    (walk.trans further) ended small, fun other fits => ?_⟩
  rw [tail]
  exact run_of_walk wellFormed isLocal held good further ended fits

/-- **A text has the styles that the machine without windows gives it**, whatever the number of bytes
that are searched at a time: the machine walks to the end of the text in one way only, scanning the
text goes well, and two scans that search different numbers of bytes find the same. -/
theorem highlight_eq_walk :
    ∃ styles final, grammar.Walk text .initial styles final ∧ final.position = text.size ∧
      (∀ others other, grammar.Walk text .initial others other → other.position = text.size →
        others = styles) ∧
      (∀ unit, text.size + unit ≤ maxSize →
        grammar.highlight text unit = .ok styles.toArray) ∧
      ∀ unit other, text.size + unit ≤ maxSize → text.size + other ≤ maxSize →
        grammar.highlight text unit = grammar.highlight text other := by
  obtain ⟨styles, final, walk, -, ended⟩ := exists_walk_to_end wellFormed isLocal held
    (Spot.good_initial grammar text)
  have all : ∀ unit, text.size + unit ≤ maxSize →
      grammar.highlight text unit = .ok styles.toArray :=
    fun unit fits => highlight_of_walk wellFormed isLocal held walk ended fits
  refine ⟨styles, final, walk, ended, ?_, all, ?_⟩
  · intro others other walked endedToo
    exact (walk.unique walked ended.ge endedToo.ge).1
  · intro unit other fits fitsToo
    rw [all unit fits, all other fitsToo]

end Texts

theorem highlight_eq_walk_brackets :
    brackets.WellFormed ∧ brackets.Local ∧ (Text.ofString "a(b)").Held ∧
      ∃ final, brackets.Walk (.ofString "a(b)") .initial [0, 1, 1, 1] final ∧
        ∀ unit, 4 + unit ≤ maxSize →
          brackets.highlight (.ofString "a(b)") unit = .ok #[0, 1, 1, 1] := by
  obtain ⟨styles, final, walk, -, -, all, -⟩ :=
    highlight_eq_walk wellFormed_brackets isLocal_brackets Text.held_brackets
  have found : brackets.highlight (.ofString "a(b)") 2 = .ok #[0, 1, 1, 1] := by
    decide +kernel
  have same : styles.toArray = #[0, 1, 1, 1] := Except.ok.inj ((all 2 (by decide)).symm.trans found)
  have styles_eq : styles = [0, 1, 1, 1] := congrArg Array.toList same
  rw [same] at all
  exact ⟨wellFormed_brackets, isLocal_brackets, Text.held_brackets, final, styles_eq ▸ walk, all⟩

end Grammar

/-! ### Grammars without patterns -/

namespace Grammar

/-- Where there are no patterns to look for, every text has the default style throughout. -/
def IsBlank (grammar : Grammar) : Prop :=
  grammar.hasPatterns = false → ∀ {text : Text} {all : Array StyleId}, text.Held →
    grammar.highlight text 0 = .ok all → all = Array.replicate all.size defaultStyle

/-- Where there are no patterns to look for, what is behind a place in a text has the styles that it
has behind any other place of any other text. -/
def IsSteady (grammar : Grammar) : Prop :=
  grammar.hasPatterns = false →
    ∀ {first second : Text} {start place : Nat} {all others : Array StyleId}, first.Held →
      second.Held → Text.SameFrom first start second place →
        grammar.highlight first 0 = .ok all → grammar.highlight second 0 = .ok others →
          all.toList.drop start = others.toList.drop place

theorem children_of_plain (plain : grammar.hasPatterns = false) {pattern : Pattern}
    (root : grammar.pattern rootPattern = .ok pattern) : pattern.children = [] := by
  unfold hasPatterns at plain
  rw [pattern_eq_ok_iff.mp root] at plain
  simpa using plain

/-- There is nothing to look for then. -/
theorem members_of_plain (plain : grammar.hasPatterns = false) {pattern : Pattern}
    (root : grammar.pattern rootPattern = .ok pattern) : grammar.members pattern = [] := by
  unfold members openings
  rw [children_of_plain plain root]
  rfl

/-- Outside of all regions bytes have the default style if the root has none. -/
theorem style_root {pattern : Pattern} (root : grammar.pattern rootPattern = .ok pattern)
    (unstyled : pattern.style = none) : PatternStack.root.style grammar = .ok defaultStyle := by
  show PatternStack.firstStyle grammar [PatternStack.rootFrame] = _
  rw [PatternStack.firstStyle, Fault.bind_eq_ok]
  refine ⟨pattern, root, ?_⟩
  rw [unstyled]
  rfl

section Root

variable {pattern : Pattern} (root : grammar.pattern rootPattern = .ok pattern)
  (closing : pattern.closing = none) (unstyled : pattern.style = none)
include root closing unstyled

/-- The machine at a root that has nothing to look for passes every character. -/
theorem hop_of_plain (plain : grammar.hasPatterns = false) {position : Nat} {used : Bool}
    {styles : List StyleId} {next : Spot}
    (here : grammar.hop text ⟨position, .root, used⟩ = .ok (styles, next)) :
    next.stack = .root ∧ styles = List.replicate styles.length defaultStyle := by
  have quiet : grammar.choiceAt pattern none text position = none := by
    unfold choiceAt childAt
    rw [closingAt_of_none closing, members_of_plain plain root]
    rfl
  have passes : grammar.hop text ⟨position, .root, used⟩ = grammar.pass text _ :=
    hop_of_none root quiet
  rw [passes] at here
  unfold pass at here
  rw [style_root root unstyled] at here
  cases here
  exact ⟨rfl, by rw [List.length_replicate]⟩

theorem Walk.of_plain (plain : grammar.hasPatterns = false) {spot final : Spot}
    {styles : List StyleId} (walk : grammar.Walk text spot styles final)
    (atRoot : spot.stack = .root) : styles = List.replicate styles.length defaultStyle := by
  induction walk with
  | refl spot => rfl
  | @head spot next final styles rest inside here walk ih =>
    rcases spot with ⟨position, stack, used⟩
    subst atRoot
    obtain ⟨rootNext, defaults⟩ := hop_of_plain root closing unstyled plain here
    have rests := ih rootNext
    rw [defaults, rests]
    simp only [List.length_replicate, List.replicate_append_replicate]

/-- A grammar is blank if its root does not end and has no style. -/
theorem isBlank_of_root (wellFormed : grammar.WellFormed) (isLocal : grammar.Local) :
    grammar.IsBlank := by
  intro plain text all held went
  obtain ⟨styles, final, walk, -, ended⟩ := exists_walk_to_end wellFormed isLocal held
    (Spot.good_initial grammar text)
  have found := highlight_of_walk wellFormed isLocal held walk ended
    (show text.size + 0 ≤ maxSize from held.size_lt_maxSize.le)
  cases went.symm.trans found
  rw [walk.of_plain root closing unstyled plain rfl, List.toArray_replicate, Array.size_replicate]

end Root

section Lawful

variable (wellFormed : grammar.WellFormed) (isLocal : grammar.Local)
include wellFormed isLocal

/-- The walk to the end of a text gets over as many bytes as the text has, and the styles of the text
are its own. -/
theorem Walk.highlight_initial (held : text.Held) {styles : List StyleId} {final : Spot}
    (walk : grammar.Walk text .initial styles final) (ended : final.position = text.size) :
    styles.length = text.size ∧ grammar.highlight text 0 = .ok styles.toArray :=
  ⟨(walk.length_initial wellFormed isLocal held).trans ended,
    highlight_of_walk wellFormed isLocal held walk ended held.size_lt_maxSize.le⟩

/-- Every byte of a text has a style. -/
theorem size_of_highlight (held : text.Held) {all : Array StyleId}
    (went : grammar.highlight text 0 = .ok all) : all.size = text.size := by
  obtain ⟨styles, final, walk, -, ended⟩ := exists_walk_to_end wellFormed isLocal held
    (Spot.good_initial grammar text)
  obtain ⟨length, found⟩ := walk.highlight_initial wellFormed isLocal held ended
  cases went.symm.trans found
  rw [List.size_toArray, length]

/-- A walk to the end of a text gives it the default style, if the grammar is blank. -/
theorem IsBlank.walk (blank : grammar.IsBlank) (plain : grammar.hasPatterns = false)
    (held : text.Held) {styles : List StyleId} {final : Spot}
    (walk : grammar.Walk text .initial styles final) (ended : final.position = text.size) :
    styles = List.replicate styles.length defaultStyle := by
  have found := (walk.highlight_initial wellFormed isLocal held ended).2
  have defaults := congrArg Array.toList (blank plain held found)
  rwa [Array.toList_replicate, List.size_toArray] at defaults

/-- Two texts that are the same behind some place have the same styles there, if the grammar is
steady. -/
theorem IsSteady.walk (steady : grammar.IsSteady) (plain : grammar.hasPatterns = false)
    {first second : Text} {start place : Nat} (held : first.Held) (heldToo : second.Held)
    (same : Text.SameFrom first start second place) {styles others : List StyleId}
    {final other : Spot} (walk : grammar.Walk first .initial styles final)
    (ended : final.position = first.size) (walkToo : grammar.Walk second .initial others other)
    (endedToo : other.position = second.size) : styles.drop start = others.drop place :=
  steady plain held heldToo same (walk.highlight_initial wellFormed isLocal held ended).2
    (walkToo.highlight_initial wellFormed isLocal heldToo endedToo).2

/-- Where all bytes have the same style, they have it behind any place. -/
theorem IsBlank.isSteady (blank : grammar.IsBlank) : grammar.IsSteady := by
  intro plain first second start place all others held heldToo same went wentToo
  obtain ⟨styles, final, walk, -, ended⟩ := exists_walk_to_end wellFormed isLocal held
    (Spot.good_initial grammar first)
  obtain ⟨stylesToo, finalToo, walkToo, -, endedToo⟩ := exists_walk_to_end wellFormed isLocal heldToo
    (Spot.good_initial grammar second)
  obtain ⟨length, found⟩ := walk.highlight_initial wellFormed isLocal held ended
  obtain ⟨lengthToo, foundToo⟩ := walkToo.highlight_initial wellFormed isLocal heldToo endedToo
  cases went.symm.trans found
  cases wentToo.symm.trans foundToo
  have sizes := same.size_add
  rw [blank.walk wellFormed isLocal plain held walk ended,
    blank.walk wellFormed isLocal plain heldToo walkToo endedToo, List.drop_replicate,
    List.drop_replicate]
  congr 1
  omega

end Lawful

theorem isBlank_brackets : brackets.IsBlank := fun plain => nomatch plain

theorem isSteady_brackets : brackets.IsSteady := fun plain => nomatch plain

end Grammar

end Highlight
