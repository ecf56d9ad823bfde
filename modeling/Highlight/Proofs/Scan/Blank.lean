/-
**Without patterns every byte has the default style.**

Wherever regexes look, a scan that has nothing to look for gets over the text without a match:

* `Grammar.choose_of_plain`: nothing is found outside of all regions;
* `Grammar.makes_plain`: so a scan stays there, and every token has the default style;
* `Grammar.highlight_of_plain`: **the whole text has the default style then**.
-/

import Highlight.Proofs.Scan.Highlight
import Highlight.Proofs.Scan.Lawful

namespace Highlight

namespace Grammar

variable {grammar : Grammar} {text : Text} {pattern : Pattern}
  (root : grammar.pattern rootPattern = .ok pattern) (closing : pattern.closing = none)
  (unstyled : pattern.style = none) (plain : grammar.hasPatterns = false)

/-! ### Moves -/

/-- A move from outside of all regions enters none, and its token has the default style. -/
def Bare (state : ScanState) (move : Move) : Prop :=
  state.stack = .root → move.state.stack = .root ∧
    ∀ token ∈ move.token, token.style = defaultStyle ∧ token.captures = []

include root closing plain in
/-- Nothing is found outside of all regions. -/
theorem choose_of_plain {window : Window} {state : ScanState} (atRoot : state.stack = .root)
    (searches : grammar.Searches text window state.position) (held : text.Held) :
    grammar.choose window state = .ok none := by
  obtain ⟨utf8, inWindow, within, -⟩ := searches.inWindow held
  have noEnd : grammar.closing? pattern none window state.position = .ok none := by
    unfold closing?
    rw [closing]
    rfl
  have noChild : grammar.child? pattern window state.position none = none := by
    unfold child?
    rw [members_of_plain plain root, Option.eq_none_iff_forall_not_mem]
    intro found member
    obtain ⟨searched, -⟩ := Option.filter_eq_some_iff.mp member
    obtain ⟨place, -, -, -, first⟩ := Regex.Matcher.exists_of_firstFrom utf8 inWindow within searched
    cases first
  unfold choose
  rw [atRoot]
  show (grammar.pattern rootPattern >>= _) = _
  rw [root, Fault.ok_bind]
  show (grammar.closing? pattern none window state.position >>= _) = _
  rw [noEnd, Fault.ok_bind, noChild]
  rfl

include root closing unstyled plain in
/-- **A scan stays outside of all regions**, over bytes of the default style. -/
theorem makes_plain (wellFormed : grammar.WellFormed) (lawful : grammar.Lawful) (held : text.Held) :
    grammar.Makes text fun state move => grammar.Stride text state move ∧ Bare state move := by
  have makes := makes_stride wellFormed lawful.bounded held
  refine ⟨fun isMade => isMade.1, fun {window state} good searches => ?_⟩
  obtain ⟨choice, chosen, approaches⟩ := makes.approaches good searches
  refine ⟨choice, chosen, ?_⟩
  by_cases atRoot : state.stack = .root
  · cases (choose_of_search chosen).symm.trans
      (choose_of_plain root closing plain atRoot searches held)
    cases approaches with
    | none moved isMade =>
      have styled : state.stack.style grammar = .ok defaultStyle := by
        rw [atRoot]
        exact style_root root unstyled
      have passed := moved
      rw [plainMove_eq styled] at passed
      cases passed
      refine .none moved ⟨isMade.1, fun _ => ⟨atRoot, fun token member => ?_⟩⟩
      cases member
      exact ⟨rfl, rfl⟩
  · -- Whatever is found inside of a region, the scan is not where this is about.
    have elsewhere : ∀ {other : ScanState} {move : Move}, other.stack = state.stack →
        Bare other move := fun same bare => absurd (same.symm.trans bare) atRoot
    cases approaches with
    | none moved isMade => exact .none moved ⟨isMade.1, elsewhere rfl⟩
    | here start moved isMade => exact .here start moved ⟨isMade.1, elsewhere rfl⟩
    | ahead start moved isMade stop movedOver isMadeToo =>
      obtain ⟨style, styled⟩ := good.known.style wellFormed
      have passed := moved
      rw [plainMove_eq styled] at passed
      cases passed
      exact .ahead start moved ⟨isMade.1, elsewhere rfl⟩ stop movedOver
        ⟨isMadeToo.1, elsewhere rfl⟩

end Grammar

/-! ### Rows -/

/-- A row of bytes of the default style, which is as long as the scan. -/
structure StyleRow.Blank (row : StyleRow) (state : ScanState) : Prop where
  stack : state.stack = .root
  stop : row.stop = state.position
  styles : row.styles = Array.replicate row.styles.size defaultStyle

variable {grammar : Grammar} {text : Text}

/-- Painting tokens of the default style keeps a row so. -/
theorem StyleRow.sink_blank :
    StyleRow.sink.Keeps grammar text
      (fun state move => grammar.Stride text state move ∧ Grammar.Bare state move)
      StyleRow.Blank fun _ _ => False := by
  constructor
  · rintro row state move good ⟨stack, stop, styles⟩ ⟨stride, bare⟩ silent
    exact ⟨(bare stack).1, stop.trans (stride.silent silent), styles⟩
  · rintro row state move token after flow good ⟨stack, stop, styles⟩ ⟨stride, bare⟩ delivered taken
    cases taken
    obtain ⟨sound, tokenStart, tokenStop, -⟩ := stride.token token delivered
    obtain ⟨stackAfter, defaults⟩ := bare stack
    obtain ⟨style, captures⟩ := defaults token delivered
    have behind := stop.trans tokenStart.symm
    have stopAfter := (row.stop_paint sound behind).trans tokenStop
    have added : token.styles.toArray = Array.replicate (token.stop - token.start) defaultStyle := by
      unfold Token.styles StyledSpan.styles
      rw [style, captures]
      show (List.map (fun _ => defaultStyle) _).toArray = _
      rw [List.map_const', List.length_range', List.toArray_replicate]
    refine ⟨stackAfter, stopAfter, ?_⟩
    rw [row.paint_append sound behind, added]
    simp only
    rw [styles, Array.replicate_append_replicate, Array.size_replicate]

/-- **Without patterns the whole text has the default style**, if the root does not end and has no style,
wherever regexes look and whatever is searched at a time. -/
theorem Grammar.highlight_of_plain {pattern : Pattern}
    (root : grammar.pattern rootPattern = .ok pattern) (closing : pattern.closing = none)
    (unstyled : pattern.style = none) (plain : grammar.hasPatterns = false)
    (wellFormed : grammar.WellFormed) (lawful : grammar.Lawful) (held : text.Held) {unit : Nat}
    {all : Array StyleId} (went : grammar.highlight text unit = .ok all) :
    all = Array.replicate all.size defaultStyle := by
  obtain ⟨⟨row, final, ending⟩, ran, done⟩ := Fault.bind_eq_ok.mp went
  cases done
  have good : ScanState.initial.Good grammar text :=
    ScanState.good_startingAt (Spot.good_initial grammar text).boundary (PatternStack.known_root grammar)
  have positive := Scanner.unit_pos grammar unit
  have none : StyleRow.Blank (.empty 0) .initial := ⟨rfl, rfl, rfl⟩
  have ends := (Scanner.ofUnit grammar unit).run_ends
    (makes_plain root closing unstyled plain wellFormed lawful held) held StyleRow.sink_blank text.size
    (fun _ => Or.inr trivial) positive good none
  rw [ran] at ends
  obtain ⟨-, ⟨blank, -, -⟩ | ⟨never, -⟩⟩ := ends
  · exact blank.styles
  · exact never.elim

end Highlight
