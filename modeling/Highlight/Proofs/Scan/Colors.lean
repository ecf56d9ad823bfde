/-
**Which style a byte gets.**

Which style a byte has depends on what has led to its token: over text that nothing matches and at a match
that ends a region it is that of the innermost region around it, at a match that begins a region already
that of the new one, and a match that does neither may have a style of its own. Groups of the match may
lie over it. Of the regexes it is asked only that a match does not begin before the search and does not
end before it begins:

* `Grammar.Colors`: **the style of a byte by what has led to its token**, `Grammar.Causes.colors_iff`;
* `Grammar.Forward`: what is asked of the regexes;
* `Grammar.Causes.advances`: an event leads over its token, if it has one, and over nothing else;
* `Grammar.History.painted`: a row that is painted with the tokens of events has their styles;
* `Grammar.highlight_colors`: **a text has these styles**, and every byte of it is in a token.
-/

import Highlight.Proofs.Scan.Events
import Highlight.Proofs.Scan.Layers
import Highlight.Proofs.Scan.Tokens

namespace Highlight

namespace Grammar

variable {grammar : Grammar} {text : Text}

/-! ### Styles by events -/

/-- The style of a byte of the token of an event. -/
inductive Colors (grammar : Grammar) (event : Event) (place : Nat) : StyleId → Prop where
  /-- Text that nothing matches, or a single character that a match of no bytes has been used at. -/
  | ground {style : StyleId} (cause : event.cause = .plain ∨ event.cause = .forced)
      (inner : grammar.Innermost event.before.stack style) : Colors grammar event place style
  /-- A match that ends a region, which is still inside of it. -/
  | closing {window : Window} {found : Regex.Match} {region : Pattern} {below style : StyleId}
      (cause : event.cause = .used window (.closing found))
      (there : grammar.pattern event.before.stack.top.pattern = .ok region)
      (inner : grammar.Innermost event.before.stack below)
      (top : (found.moved window.offset).Top region.closingCaptures below place style) :
      Colors grammar event place style
  /-- A match that begins a region, which is already inside of it. -/
  | opening {window : Window} {id : PatternId} {found : Regex.Match} {child : Pattern}
      {pushed : Option Text} {below style : StyleId}
      (cause : event.cause = .used window (.child id found))
      (there : grammar.pattern id = .ok child)
      (room : child.isRegion = true ∧ event.before.stack.isFull = false)
      (entered : event.move.state.stack = ⟨⟨id, pushed⟩ :: event.before.stack.regions⟩)
      (inner : grammar.Innermost event.move.state.stack below)
      (top : (found.moved window.offset).Top child.openingCaptures below place style) :
      Colors grammar event place style
  /-- A match of a child that is no region, or that cannot be entered. -/
  | whole {window : Window} {id : PatternId} {found : Regex.Match} {child : Pattern}
      {below style : StyleId} (cause : event.cause = .used window (.child id found))
      (there : grammar.pattern id = .ok child)
      (stays : child.isRegion = false ∨ event.before.stack.isFull = true)
      (own : child.style = some below ∨
        child.style = none ∧ grammar.Innermost event.before.stack below)
      (top : (found.moved window.offset).Top child.openingCaptures below place style) :
      Colors grammar event place style

theorem own_iff {stack : PatternStack} {child : Pattern} {style : StyleId}
    (styled : grammar.matchStyle stack child = .ok style) (other : StyleId) :
    child.style = some other ∨ child.style = none ∧ grammar.Innermost stack other ↔
      other = style := by
  unfold matchStyle at styled
  cases own : child.style with
  | some found =>
    rw [own] at styled
    cases styled
    simp [eq_comm]
  | none =>
    rw [own] at styled
    simp [innermost_iff styled]

/-- What has been used tells the styles of the bytes of the match. -/
theorem Uses.colors_iff {window : Window} {state : ScanState} {choice : Choice} {move : Move}
    {captures : List (Option StyleId)} {below : StyleId}
    (uses : grammar.Uses window state.stack choice captures below move.state.stack) (place : Nat)
    (style : StyleId) :
    grammar.Colors ⟨state, .used window choice, move⟩ place style ↔
      (choice.found.moved window.offset).Top captures below place style := by
  generalize after : move.state.stack = stack at uses
  cases uses with
  | @closing found region below known styled =>
    refine ⟨fun colors => ?_, .closing rfl known ((innermost_iff styled _).mpr rfl)⟩
    cases colors with
    | ground cause => rcases cause with cause | cause <;> cases cause
    | opening cause | whole cause => cases cause
    | closing cause there inner top =>
      cases cause
      cases known.symm.trans there
      rwa [(innermost_iff styled _).mp inner] at top
  | @opening id found child pushed below known enters styled =>
    rw [entered?_eq_ite] at enters
    split at enters
    · rename_i room
      cases enters
      rw [← after] at styled
      refine ⟨fun colors => ?_, .opening rfl known room after ((innermost_iff styled _).mpr rfl)⟩
      cases colors with
      | ground cause => rcases cause with cause | cause <;> cases cause
      | closing cause => cases cause
      | opening cause there _ _ inner top =>
        cases cause
        cases known.symm.trans there
        rwa [(innermost_iff styled _).mp inner] at top
      | whole cause there stays =>
        cases cause
        cases known.symm.trans there
        rcases stays with leaf | full
        · cases leaf.symm.trans room.1
        · cases full.symm.trans room.2
    · cases enters
  | @whole id found child below known stays styled =>
    rw [entered?_eq_ite] at stays
    split at stays
    · cases stays
    · rename_i noRoom
      rw [not_and_or, Bool.not_eq_true, Bool.not_eq_false] at noRoom
      refine ⟨fun colors => ?_, .whole rfl known noRoom ((own_iff styled _).mpr rfl)⟩
      cases colors with
      | ground cause => rcases cause with cause | cause <;> cases cause
      | closing cause => cases cause
      | opening cause there room =>
        cases cause
        cases known.symm.trans there
        rcases noRoom with leaf | full
        · cases leaf.symm.trans room.1
        · cases full.symm.trans room.2
      | whole cause there _ own top =>
        cases cause
        cases known.symm.trans there
        rwa [(own_iff styled _).mp own] at top

/-- **What a token tells of the style of a byte is what has led to it.** -/
theorem Causes.colors_iff {event : Event} (caused : grammar.Causes text event) {token : Token}
    (delivered : event.move.token = some token) (place : Nat) (style : StyleId) :
    grammar.Colors event place style ↔
      style = StyledSpan.styleAt token.captures token.style place := by
  cases caused with
  | plain _ _ _ _ moved =>
    obtain ⟨found, styled, rfl⟩ := plainMove_eq_ok moved
    cases delivered
    refine ⟨fun colors => ?_, fun same => .ground (Or.inl rfl) ((innermost_iff styled _).mpr same)⟩
    cases colors with
    | ground _ inner => exact (innermost_iff styled _).mp inner
    | closing cause | opening cause | whole cause => cases cause
  | forced _ _ moved =>
    obtain ⟨found, stop, styled, -, rfl⟩ := forcedMove_eq_ok moved
    cases delivered
    refine ⟨fun colors => ?_, fun same => .ground (Or.inr rfl) ((innermost_iff styled _).mpr same)⟩
    cases colors with
    | ground _ inner => exact (innermost_iff styled _).mp inner
    | closing cause | opening cause | whole cause => cases cause
  | @used state window choice move finds fresh moved =>
    obtain ⟨captures, below, stack, kind, emptyAt, uses, rfl⟩ := matchMove_eq_ok fresh moved
    simp only [Regex.Match.token] at delivered
    split at delivered
    · cases delivered
      exact (Uses.colors_iff uses place style).trans (Regex.Match.top_iff below style)
    · cases delivered

end Grammar

/-! ### Where the tokens are -/

/-- No match of a regex begins before the search did, or ends before it begins. -/
def Regex.Matcher.Forward (matcher : Regex.Matcher) : Prop :=
  ∀ {subject : Text} {origin position : Nat} {flags : Regex.SearchFlags} {found : Regex.Match},
    subject.Held → origin ≤ position → position < subject.size →
      matcher.attempt subject origin position flags = some found →
        origin ≤ found.start ∧ found.start ≤ found.stop

theorem Regex.Matcher.forward_ofCharacter (byte : UInt8) : (ofCharacter byte).Forward := by
  intro subject origin position flags found held earlier inside here
  unfold ofCharacter at here
  simp only at here
  split at here
  · cases here
    exact ⟨earlier, Nat.le_succ _⟩
  · cases here

/-- An event leads over its token, if it has one, and over nothing else. -/
structure Event.Advances (event : Event) : Prop where
  token : ∀ token ∈ event.move.token, token.Sound ∧ token.start = event.before.position ∧
    token.stop = event.move.state.position
  silent : event.move.token = none → event.move.state.position = event.before.position

/-- A row is painted with every token that it is handed. -/
theorem StyleRow.taken_cons {row after : StyleRow} {report : ScanReport} {rest : List ScanReport}
    {flow : Flow} (taken : ScanReport.Taken StyleRow.sink row (report :: rest) after flow) :
    ScanReport.Taken StyleRow.sink (row.paint report.token) rest after flow := by
  cases taken with
  | halt taken => cases taken
  | cons taken others =>
    cases taken
    exact others

namespace Grammar

variable {grammar : Grammar} {text : Text}

/-- No match of a regex of the grammar begins before the search did, or ends before it begins. -/
def Forward (grammar : Grammar) : Prop := grammar.AllMatchers fun matcher => matcher.Forward

/-- What a scan tries is a regex of the grammar. -/
theorem AllMatchers.tried {asked : Regex.Matcher → Prop} (all : grammar.AllMatchers asked) {id : PatternId}
    {pattern : Pattern} (known : grammar.pattern id = .ok pattern) {pushed : Option Text}
    {subject : Text} {choice : Choice} {matcher : Regex.Matcher}
    (tries : grammar.Tries pattern pushed subject choice matcher) : asked matcher := by
  cases tries with
  | closing closes there => exact all.closing pattern (mem_of_pattern known) _ closes _ there
  | child member => exact all.member member

/-- What a scan has found begins where the scan is. -/
theorem Finds.start (forward : grammar.Forward) (held : text.Held) {window : Window}
    {state : ScanState} {choice : Choice} (finds : grammar.Finds text window state choice) :
    window.offset + choice.found.start = state.position ∧ choice.found.start ≤ choice.found.stop := by
  obtain ⟨origin, looks, chosen, position⟩ := finds
  obtain ⟨stop, covers, offset, within, -⟩ := looks.covers held
  obtain ⟨pattern, matcher, first, place, known, tries, behind, later, before, matched⟩ :=
    exists_attempt_of_choose chosen
  have sizes := covers.size_add
  have ordered := looks.ordered
  unfold Window.relative at behind before
  obtain ⟨starts, stops⟩ := forward.tried known tries (covers.held held) later (by omega) matched
  simp only at behind
  exact ⟨by omega, stops⟩

/-- **An event leads over its token.** -/
theorem Causes.advances (forward : grammar.Forward) (held : text.Held) {event : Event}
    (caused : grammar.Causes text event) : event.Advances := by
  cases caused with
  | plain _ _ _ ahead moved =>
    obtain ⟨style, -, rfl⟩ := plainMove_eq_ok moved
    refine ⟨fun token member => ?_, fun missing => nomatch missing⟩
    cases member
    exact ⟨⟨ahead, fun _ member => nomatch member⟩, rfl, rfl⟩
  | forced _ _ moved =>
    obtain ⟨style, stop, -, ahead, rfl⟩ := forcedMove_eq_ok moved
    refine ⟨fun token member => ?_, fun missing => nomatch missing⟩
    cases member
    exact ⟨⟨ahead, fun _ member => nomatch member⟩, rfl, rfl⟩
  | @used state window choice move finds fresh moved =>
    obtain ⟨captures, style, stack, kind, emptyAt, -, rfl⟩ := matchMove_eq_ok fresh moved
    obtain ⟨start, ordered⟩ := finds.start forward held
    have begins : (choice.found.moved window.offset).start = state.position :=
      (Nat.add_comm _ _).trans start
    refine ⟨fun token member => ?_, fun missing => ?_⟩
    · obtain ⟨sound, starts, stops, -⟩ := Regex.Match.mem_token member
      exact ⟨sound, starts.trans begins, stops⟩
    · have orderedMoved : (choice.found.moved window.offset).start ≤
          (choice.found.moved window.offset).stop := Nat.add_le_add_right ordered _
      simp only [Regex.Match.token] at missing
      split at missing
      · cases missing
      · show (choice.found.moved window.offset).stop = state.position
        omega

theorem History.advances (forward : grammar.Forward) (held : text.Held) {state final : ScanState}
    {events : List Event} (history : grammar.History text state events final) :
    ∀ event ∈ events, event.Advances := by
  induction history with
  | nil => exact fun _ member => nomatch member
  | cons _ caused _ ih => exact List.forall_mem_cons.mpr ⟨caused.advances forward held, ih⟩

/-! ### Painting -/

/-- Every place that is led over is in a token. -/
theorem History.exists_token {state final : ScanState} {events : List Event}
    (history : grammar.History text state events final) (advances : ∀ event ∈ events, event.Advances)
    {place : Nat} (behind : state.position ≤ place) (before : place < final.position) :
    ∃ event ∈ events, ∃ token ∈ event.move.token, token.start ≤ place ∧ place < token.stop := by
  induction history with
  | nil => omega
  | @cons state final event rest starts _ _ ih =>
    subst starts
    obtain ⟨advance, others⟩ := List.forall_mem_cons.mp advances
    by_cases passed : event.move.state.position ≤ place
    · obtain ⟨other, member, token, inside⟩ := ih others passed before
      exact ⟨other, List.mem_cons_of_mem _ member, token, inside⟩
    · cases delivered : event.move.token with
      | none =>
        have := advance.silent delivered
        omega
      | some token =>
        obtain ⟨-, starts, stops⟩ := advance.token token delivered
        exact ⟨event, List.mem_cons_self, token, delivered, by omega, by omega⟩

/-- **A row that is painted with the tokens of events has the styles of the tokens.** -/
theorem History.painted {state final : ScanState} {events : List Event}
    (history : grammar.History text state events final) (advances : ∀ event ∈ events, event.Advances)
    {row after : StyleRow} {flow : Flow} (behind : row.stop = state.position)
    (taken : ScanReport.Taken StyleRow.sink row (Move.reports (events.map Event.move)) after flow) :
    after.start = row.start ∧ after.stop = final.position ∧
      (∀ place, row.start ≤ place → place < row.stop →
        after.styles[place - row.start]? = row.styles[place - row.start]?) ∧
      ∀ event ∈ events, ∀ token ∈ event.move.token, ∀ place, token.start ≤ place →
        place < token.stop → after.styles[place - row.start]? =
          some (StyledSpan.styleAt token.captures token.style place) := by
  induction history generalizing row with
  | nil =>
    cases taken
    exact ⟨rfl, behind, fun _ _ _ => rfl, fun _ member => nomatch member⟩
  | @cons state final event rest starts _ _ ih =>
    subst starts
    obtain ⟨advance, others⟩ := List.forall_mem_cons.mp advances
    rw [List.map_cons, Move.reports, List.filterMap_cons] at taken
    cases delivered : event.move.token with
    | none =>
      rw [delivered] at taken
      obtain ⟨start, stop, old, styled⟩ :=
        ih others (behind.trans (advance.silent delivered).symm) taken
      refine ⟨start, stop, old, List.forall_mem_cons.mpr ⟨fun token member => ?_, styled⟩⟩
      cases delivered.symm.trans member
    | some token =>
      rw [delivered] at taken
      obtain ⟨sound, starts, stops⟩ := advance.token token delivered
      have next := behind.trans starts.symm
      have rowStart : row.start ≤ row.stop := Nat.le_add_right _ _
      have ordered := sound.ordered
      have painted := (row.stop_paint sound next).trans stops
      obtain ⟨start, stop, old, styled⟩ := ih others painted (StyleRow.taken_cons taken)
      rw [show (row.paint token).start = row.start by rw [row.paint_append sound next]]
        at start old styled
      rw [row.stop_paint sound next] at old
      refine ⟨start, stop, fun place first last => ?_,
        List.forall_mem_cons.mpr ⟨fun other member place first last => ?_, styled⟩⟩
      · rw [old place first (by omega), row.getElem?_paint sound next first (by omega),
          if_pos (by omega)]
      · cases delivered.symm.trans member
        rw [old place (by omega) last, row.getElem?_paint sound next (by omega) last,
          if_neg (by omega)]

/-! ### Texts -/

/-- **The style of a byte is told by what has led to its token.** The styles of a text are those of the
events of a scan of it from its start to its end, and every byte is in a token. If the matches lie between
characters of the text, too, then a text has styles, one for each of its bytes. -/
theorem highlight_colors (forward : grammar.Forward) (held : text.Held) (unit : Nat) :
    (∀ styles, grammar.highlight text unit = .ok styles →
      ∃ events after,
        (Scanner.ofUnit grammar unit).Tells text StyleRow.sink text.size .initial (.empty 0) events
            after ∧
          styles = after.collected.styles ∧
          (∀ place < styles.size,
            ∃ event ∈ events, ∃ token ∈ event.move.token, token.start ≤ place ∧ place < token.stop) ∧
          ∀ event ∈ events, ∀ token ∈ event.move.token, ∀ place, token.start ≤ place →
            place < token.stop →
              ∀ style, styles[place]? = some style ↔ grammar.Colors event place style) ∧
    (grammar.WellFormed → grammar.Lawful → unit ≤ maxSize →
      ∃ styles, grammar.highlight text unit = .ok styles ∧ styles.size = text.size) := by
  refine ⟨fun styles highlighted => ?_, fun wellFormed lawful small =>
    exists_highlight wellFormed lawful held small⟩
  obtain ⟨⟨row, final, ending⟩, went, done⟩ := Fault.bind_eq_ok.mp highlighted
  cases done
  obtain ⟨events, flow, tells⟩ := Scanner.exists_tells went
  have advances := tells.history.advances forward held
  obtain ⟨steps, scanned, same⟩ := tells.scanned
  have taken := scanned.taken
  rw [same] at taken
  obtain ⟨start, stop, -, styled⟩ := tells.history.painted advances rfl taken
  have start : row.start = 0 := start
  have stop : row.start + row.styles.size = final.position := stop
  refine ⟨events, _, tells, rfl, fun place inside => ?_, fun event member token delivered place first last
    style => ?_⟩
  · exact tells.history.exists_token advances (Nat.zero_le _) (show place < final.position by omega)
  · obtain ⟨earlier, later, split⟩ := List.append_of_mem member
    have caused : grammar.Causes text event := (split ▸ tells.history).split.2
    have here : row.styles[place]? = some (StyledSpan.styleAt token.captures token.style place) :=
      styled event member token delivered place first last
    rw [caused.colors_iff delivered, here, Option.some_inj, eq_comm]

/-- The grammar of round brackets that have styles of their own, other than what is between them. -/
def framed : Grammar :=
  { brackets with
    patterns := #[{ Pattern.blank 0 1 with children := [1] },
      { Pattern.blank 1 1 with
        style := some 1, opening := some 0, closing := some 1, children := [1],
        openingCaptures := [some 2], closingCaptures := [some 3] }] }

/-- The opening bracket has a style of its own, over that of the region which it begins, and so has the
closing one. What is before them is in no region. -/
theorem highlight_colors_framed :
    framed.Forward ∧ framed.WellFormed ∧ framed.Lawful ∧ (Text.ofString "a(b)").Held ∧
      ∃ styles, framed.highlight (.ofString "a(b)") 3 = .ok styles ∧ styles.size = 4 ∧
        ∃ before opening inside closing : Event, framed.Colors before 0 0 ∧
          framed.Colors opening 1 2 ∧ framed.Colors inside 2 1 ∧ framed.Colors closing 3 3 := by
  have forward : framed.Forward := allMatchers_of_brackets Regex.Matcher.forward_ofCharacter rfl
  have bounded : framed.Bounded 1 := allMatchers_of_brackets
    (fun byte => Regex.Matcher.bounded_ofCharacter byte) rfl
  have lawful : framed.Lawful := bounded.imp fun _ matcher => matcher.lawful
  have wellFormed : framed.WellFormed := ⟨⟨_, rfl⟩, by decide⟩
  obtain ⟨colors, highlights⟩ := highlight_colors forward Text.held_brackets 3
  obtain ⟨styles, highlighted, size⟩ := highlights wellFormed lawful (by decide)
  have same : framed.highlight (.ofString "a(b)") 3 = .ok #[0, 2, 1, 3] := by decide +kernel
  cases highlighted.symm.trans same
  obtain ⟨events, after, -, -, covered, colored⟩ := colors _ highlighted
  have colorAt : ∀ place style, #[0, 2, 1, 3][place]? = some style →
      ∃ event, framed.Colors event place style := by
    intro place style here
    obtain ⟨event, member, token, delivered, first, last⟩ :=
      covered place (Array.getElem?_eq_some_iff.mp here).1
    exact ⟨event, (colored event member token delivered place first last style).mp here⟩
  obtain ⟨before, atBefore⟩ := colorAt 0 0 rfl
  obtain ⟨opening, atOpening⟩ := colorAt 1 2 rfl
  obtain ⟨inside, atInside⟩ := colorAt 2 1 rfl
  obtain ⟨closing, atClosing⟩ := colorAt 3 3 rfl
  exact ⟨forward, wellFormed, lawful, Text.held_brackets, _, highlighted, size, before, opening, inside,
    closing, atBefore, atOpening, atInside, atClosing⟩

end Grammar

end Highlight
