/-
**The moves of a scan are walks of the machine.**

A scan knows the next match beforehand and takes all the text before it in one move. Such a move is a
walk over as many hops as there are characters, and every other move is one hop:

* `Grammar.Stride`: what every move is like, whatever the regexes match;
* `Grammar.Leg`: a move with the walk it stands for;
* `Grammar.plainMove_leg`: the move over text where nothing matches;
* `Grammar.matchMove_leg`: the move over a match, or over a character where a match of no bytes has
  been used already.
-/

import Highlight.Proofs.Scan.Row

namespace Highlight

/-! ### States -/

namespace ScanState

/-- Where the machine is when a scan is in a state. -/
def spot (state : ScanState) : Spot :=
  ⟨state.position, state.stack, state.emptyAt = some state.position⟩

/-- A state between characters whose stack belongs to the grammar. No match of no bytes has been used
behind it. -/
structure Good (grammar : Grammar) (text : Text) (state : ScanState) : Prop where
  boundary : text.isBoundary state.position = true
  known : state.stack.Known grammar
  emptyAt : ∀ place ∈ state.emptyAt, place ≤ state.position

theorem Good.spot {grammar : Grammar} {text : Text} {state : ScanState}
    (good : state.Good grammar text) : state.spot.Good grammar text :=
  ⟨good.boundary, good.known⟩

theorem Good.position_le {grammar : Grammar} {text : Text} {state : ScanState}
    (good : state.Good grammar text) : state.position ≤ text.size :=
  Text.le_size_of_isBoundary good.boundary

theorem spot_startingAt (position : Nat) (stack : PatternStack) :
    (startingAt position stack).spot = ⟨position, stack, false⟩ := rfl

theorem good_startingAt {grammar : Grammar} {text : Text} {position : Nat} {stack : PatternStack}
    (boundary : text.isBoundary position = true) (known : stack.Known grammar) :
    (startingAt position stack).Good grammar text :=
  ⟨boundary, known, fun _ member => nomatch member⟩

end ScanState

namespace Grammar

variable {grammar : Grammar} {text : Text}

/-- What every move of a scan is like, whatever the regexes match: it gets on, or uses a match of no
bytes, and its token leads from where the scan was to where it is then. -/
structure Stride (grammar : Grammar) (text : Text) (state : ScanState) (move : Move) : Prop where
  good : move.state.Good grammar text
  forward : state.position < move.state.position ∨
    state.position = move.state.position ∧ state.spot.used = false ∧ move.state.spot.used = true
  silent : move.token = none → state.position = move.state.position
  token : ∀ token ∈ move.token, token.Sound ∧ token.start = state.position ∧
    token.stop = move.state.position ∧ move.state.spot.used = false
  plain : ∀ token ∈ move.token, token.plain = true →
    token.kind = .inner ∧ move.state.stack = state.stack

/-- A move of a scan, as the walk it stands for. The machine lands behind its token, and at every place
inside of it if no pattern matches there. -/
structure Leg (grammar : Grammar) (text : Text) (state : ScanState) (move : Move) : Prop
    extends Stride grammar text state move where
  walk : grammar.Walk text state.spot (move.token.elim [] Token.styles) move.state.spot
  inside : ∀ token ∈ move.token, token.plain = true → ∀ place, text.isBoundary place = true →
    state.position < place → place ≤ move.state.position →
      grammar.Lands text state.spot .inner ⟨place, state.stack, false⟩
  hops : ∀ token ∈ move.token, token.plain = false →
    grammar.Hops text state.spot token.kind move.state.spot

/-- Behind a token no match of no bytes has been used. -/
theorem Stride.spot_eq {state : ScanState} {move : Move} (stride : grammar.Stride text state move)
    {token : Token} (member : token ∈ move.token) :
    move.state.spot = ⟨move.state.position, move.state.stack, false⟩ := by
  rw [← (stride.token token member).2.2.2]
  rfl

/-- No move leads back. -/
theorem Stride.le {state : ScanState} {move : Move} (stride : grammar.Stride text state move) :
    state.position ≤ move.state.position := by
  rcases stride.forward with further | ⟨same, -, -⟩
  · exact further.le
  · exact same.le

/-- A move with a token gets on. -/
theorem Stride.lt {state : ScanState} {move : Move} (stride : grammar.Stride text state move)
    {token : Token} (member : token ∈ move.token) : state.position < move.state.position := by
  obtain ⟨sound, starts, stops, -⟩ := stride.token token member
  have := sound.ordered
  omega

/-! ### Text where nothing matches -/

theorem pass_eq {spot : Spot} {style : StyleId} (styled : spot.stack.style grammar = .ok style) :
    grammar.pass text spot = .ok (List.replicate (text.next spot.position - spot.position) style,
      ⟨text.next spot.position, spot.stack, false⟩) := by
  unfold pass
  rw [Fault.bind_eq_ok]
  exact ⟨style, styled, rfl⟩

/-- Getting on by a character is a step of no special kind. -/
theorem hops_of_pass {spot : Spot} {style : StyleId} (styled : spot.stack.style grammar = .ok style)
    (inside : spot.position < text.size) (kind : grammar.kindAt text spot = .ok .inner)
    (here : grammar.hop text spot = grammar.pass text spot) :
    grammar.Hops text spot .inner ⟨text.next spot.position, spot.stack, false⟩ :=
  ⟨inside, kind, _, here.trans (pass_eq styled)⟩

section Quiet

variable {pattern : Pattern} {stack : PatternStack} {style : StyleId} {start stop : Nat}
  (known : grammar.pattern stack.top.pattern = .ok pattern)
  (styled : stack.style grammar = .ok style) (starts : text.isBoundary start = true)
  (stops : text.isBoundary stop = true) (ordered : start < stop)
  (quiet : text.Quiet (grammar.choiceAt pattern stack.top.pushed text) start stop)
include known styled starts stops ordered quiet

/-- Where nothing matches the machine gets on by characters. -/
theorem walk_quiet (used : Bool) :
    grammar.Walk text ⟨start, stack, used⟩ (List.replicate (stop - start) style)
      ⟨stop, stack, false⟩ := by
  induction width : stop - start using Nat.strong_induction_on generalizing start used with
  | _ width ih =>
    have inside := ordered.trans_le (Text.le_size_of_isBoundary stops)
    have further := text.lt_next start
    have within := Text.next_le stops ordered
    have here : grammar.hop text ⟨start, stack, used⟩ =
        .ok (List.replicate (text.next start - start) style, ⟨text.next start, stack, false⟩) :=
      (hop_of_none known (quiet start le_rfl ordered starts)).trans (pass_eq styled)
    rcases within.lt_or_eq with before | last
    · have rest := ih (stop - text.next start) (by omega) (Text.isBoundary_next inside) before
        (quiet.mono further.le le_rfl) false rfl
      have walk := Walk.head inside here rest
      rwa [List.replicate_append_replicate, show text.next start - start +
        (stop - text.next start) = stop - start by omega, width] at walk
    · rw [last] at here
      rw [← width]
      exact .single inside here

/-- The last of these hops begins at the character before `stop`. -/
theorem lands_quiet (used : Bool) :
    grammar.Lands text ⟨start, stack, used⟩ .inner ⟨stop, stack, false⟩ := by
  obtain ⟨⟨boundary, before⟩, greatest⟩ := Text.isGreatest_floor text (stop - 1)
  have behind : start ≤ text.floor (stop - 1) := greatest ⟨starts, by omega⟩
  have inside : text.floor (stop - 1) < text.size :=
    (show text.floor (stop - 1) < stop by omega).trans_le (Text.le_size_of_isBoundary stops)
  have next : text.next (text.floor (stop - 1)) = stop := by
    apply le_antisymm (Text.next_le stops (by omega))
    by_contra short
    have := greatest ⟨Text.isBoundary_next inside, by omega⟩
    exact absurd this (text.lt_next _).not_ge
  have hops : ∀ used, grammar.Hops text ⟨text.floor (stop - 1), stack, used⟩ .inner
      ⟨stop, stack, false⟩ := by
    intro used
    have silent := quiet (text.floor (stop - 1)) behind (by omega) boundary
    have kind : grammar.kindAt text ⟨text.floor (stop - 1), stack, used⟩ = .ok .inner :=
      kindAt_of_none known silent
    have hops := hops_of_pass styled inside kind (hop_of_none known silent)
    rwa [next] at hops
  rcases behind.lt_or_eq with further | same
  · have walk := walk_quiet known styled starts boundary further (quiet.mono le_rfl (by omega)) used
    exact ((hops false).lands (by show text.floor (stop - 1) < stop; omega)).after walk
  · rw [← same] at hops
    exact (hops used).lands ordered

end Quiet

theorem styles_of_plain {start stop : Nat} {style : StyleId} (kind : BreakKind) (plain : Bool) :
    (Token.mk start stop style [] kind plain).styles = List.replicate (stop - start) style := by
  unfold Token.styles StyledSpan.styles
  show List.map (fun _ => style) _ = _
  rw [List.map_const', List.length_range']

/-- Getting on over text is a move. -/
theorem stride_of_plain {state : ScanState} {stop : Nat} (good : state.Good grammar text)
    (stops : text.isBoundary stop = true) (ordered : state.position < stop) (style : StyleId) :
    grammar.Stride text state
      ⟨some ⟨state.position, stop, style, [], .inner, true⟩, { state with position := stop }⟩ := by
  have unused : ({ state with position := stop } : ScanState).spot.used = false := by
    refine decide_eq_false fun same => ?_
    have := good.emptyAt stop same
    omega
  refine ⟨⟨stops, good.known, fun place member => (good.emptyAt place member).trans ordered.le⟩,
    Or.inl ordered, (fun missing => nomatch missing), fun token member => ?_, fun token member _ => ?_⟩
  · cases member
    exact ⟨⟨ordered, fun _ member => nomatch member⟩, rfl, rfl, unused⟩
  · cases member
    exact ⟨rfl, rfl⟩

theorem plainMove_eq {state : ScanState} {style : StyleId}
    (styled : state.stack.style grammar = .ok style) (stop : Nat) :
    grammar.plainMove state stop =
      .ok ⟨some ⟨state.position, stop, style, [], .inner, true⟩, { state with position := stop }⟩ := by
  unfold plainMove
  rw [Fault.bind_eq_ok]
  exact ⟨style, styled, rfl⟩

/-- The move over text where nothing matches can be made, and is a walk. -/
theorem plainMove_leg (wellFormed : grammar.WellFormed) {state : ScanState} {pattern : Pattern}
    {stop : Nat} (good : state.Good grammar text)
    (known : grammar.pattern state.stack.top.pattern = .ok pattern)
    (stops : text.isBoundary stop = true) (ordered : state.position < stop)
    (quiet : text.Quiet (grammar.choiceAt pattern state.stack.top.pushed text) state.position
      stop) :
    ∃ move, grammar.plainMove state stop = .ok move ∧ grammar.Leg text state move ∧
      move.state = { state with position := stop } := by
  obtain ⟨style, styled⟩ := good.known.style wellFormed
  have stride := stride_of_plain good stops ordered style
  obtain ⟨-, -, -, unused⟩ := stride.token _ rfl
  refine ⟨_, plainMove_eq styled stop, ⟨stride, ?_, fun token member _ => ?_, fun token member plain => ?_⟩,
    rfl⟩
  · have walk := walk_quiet known styled good.boundary stops ordered quiet
      (decide (state.emptyAt = some state.position))
    have spot_eq : ({ state with position := stop } : ScanState).spot = ⟨stop, state.stack, false⟩ := by
      rw [← unused]
      rfl
    simp only [Option.elim_some, styles_of_plain, spot_eq]
    exact walk
  · intro place boundary behind before
    exact lands_quiet known styled good.boundary boundary behind (quiet.mono le_rfl before) _
  · cases member
    cases plain

end Grammar

/-! ### Matches -/

namespace Regex.Match

/-- The captures of a match lie in it. -/
theorem captureSpans_inside (found : Match) (styles : List (Option StyleId)) :
    ∀ piece ∈ found.captureSpans styles, found.start ≤ piece.start ∧ piece.start < piece.stop ∧
      piece.stop ≤ found.stop := by
  intro piece member
  unfold captureSpans at member
  obtain ⟨⟨style, group⟩, -, here⟩ := List.mem_filterMap.mp member
  obtain ⟨style, -, here⟩ := Option.bind_eq_some_iff.mp here
  obtain ⟨⟨start, stop⟩, -, here⟩ := Option.bind_eq_some_iff.mp here
  simp only at here
  split at here
  · rename_i ordered
    cases here
    exact ⟨le_max_right _ _, ordered, min_le_right _ _⟩
  · cases here

variable {found : Match} {style : StyleId} {captures : List (Option StyleId)} {kind : BreakKind}

/-- The token of a match has the styles of the match. -/
theorem styles_token (ordered : found.start ≤ found.stop) :
    (found.token style captures kind).elim [] Token.styles = found.styles style captures := by
  unfold token
  split
  · rfl
  · rename_i empty
    refine (List.length_eq_zero_iff.mp ?_).symm
    unfold Match.styles
    rw [StyledSpan.length_styles]
    omega

theorem mem_token {token : Token} (member : token ∈ found.token style captures kind) :
    token.Sound ∧ token.start = found.start ∧ token.stop = found.stop ∧ token.plain = false ∧
      token.kind = kind := by
  unfold Match.token at member
  split at member
  · rename_i ordered
    cases member
    exact ⟨⟨ordered, found.captureSpans_inside captures⟩, rfl, rfl, rfl, rfl⟩
  · cases member

end Regex.Match

namespace Grammar

variable {grammar : Grammar} {text : Text}

/-- Getting over a match is a move. -/
theorem stride_of_match {state : ScanState} {found : Regex.Match} {stack : PatternStack}
    (kind : BreakKind) (style : StyleId) (captures : List (Option StyleId))
    (good : state.Good grammar text) (start : found.start = state.position)
    (ordered : found.start ≤ found.stop) (stops : text.isBoundary found.stop = true)
    (known : stack.Known grammar)
    (fresh : ¬ (found.start = found.stop ∧ state.emptyAt = some found.start)) :
    grammar.Stride text state ⟨found.token style captures kind, ⟨found.stop, stack,
      if found.start = found.stop then some found.start else state.emptyAt⟩⟩ ∧
    (ScanState.mk found.stop stack
      (if found.start = found.stop then some found.start else state.emptyAt)).spot =
        ⟨found.stop, stack, found.start = found.stop⟩ := by
  have spot_eq : (ScanState.mk found.stop stack
      (if found.start = found.stop then some found.start else state.emptyAt)).spot =
        ⟨found.stop, stack, found.start = found.stop⟩ := by
    unfold ScanState.spot
    simp only [Spot.mk.injEq, true_and, decide_eq_decide]
    by_cases empty : found.start = found.stop
    · simp only [if_pos empty, Option.some_inj]
    · simp only [if_neg empty]
      constructor
      · intro same
        have := good.emptyAt found.stop same
        omega
      · intro same
        exact absurd same empty
  refine ⟨⟨⟨stops, known, ?_⟩, ?_, ?_, ?_, ?_⟩, spot_eq⟩
  · intro place member
    show place ≤ found.stop
    simp only at member
    split at member
    · cases member
      omega
    · have := good.emptyAt place member
      omega
  · rw [spot_eq]
    show state.position < found.stop ∨ state.position = found.stop ∧ _
    by_cases empty : found.start = found.stop
    · refine Or.inr ⟨by omega, ?_, decide_eq_true empty⟩
      unfold ScanState.spot
      rw [decide_eq_false_iff_not]
      intro same
      exact fresh ⟨empty, by rw [start]; exact same⟩
    · exact Or.inl (by omega)
  · intro missing
    show state.position = found.stop
    simp only [Regex.Match.token] at missing
    split at missing
    · cases missing
    · omega
  · intro token member
    obtain ⟨sound, starts, stops, -, -⟩ := Regex.Match.mem_token member
    refine ⟨sound, starts.trans start, stops, ?_⟩
    rw [spot_eq]
    have := sound.ordered
    exact decide_eq_false (by omega)
  · intro token member plain
    obtain ⟨-, -, -, notPlain, -⟩ := Regex.Match.mem_token member
    rw [notPlain] at plain
    cases plain

/-- A hop over a match is a move. -/
theorem leg_of_match {state : ScanState} {found : Regex.Match} {stack : PatternStack}
    {kind : BreakKind} {style : StyleId} {captures : List (Option StyleId)}
    (good : state.Good grammar text) (inside : state.position < text.size)
    (near : found.Near text grammar.maxExtend state.position) (known : stack.Known grammar)
    (fresh : ¬ (found.start = found.stop ∧ state.emptyAt = some found.start))
    (here : grammar.hop text state.spot =
      .ok (found.styles style captures, ⟨found.stop, stack, found.start = found.stop⟩))
    (kindHere : grammar.kindAt text state.spot = .ok kind) :
    grammar.Leg text state ⟨found.token style captures kind, ⟨found.stop, stack,
      if found.start = found.stop then some found.start else state.emptyAt⟩⟩ := by
  have start := near.start
  have ordered : found.start ≤ found.stop := start.le.trans near.ordered
  obtain ⟨stride, spot_eq⟩ := stride_of_match kind style captures good start ordered near.stops known
    fresh
  refine ⟨stride, ?_, fun token member plain => ?_, fun token member _ => ?_⟩
  · show grammar.Walk text state.spot ((found.token style captures kind).elim [] Token.styles) _
    rw [Regex.Match.styles_token ordered, spot_eq]
    exact .single inside here
  · obtain ⟨-, -, -, notPlain, -⟩ := Regex.Match.mem_token member
    rw [notPlain] at plain
    cases plain
  · obtain ⟨-, -, -, -, rfl⟩ := Regex.Match.mem_token member
    rw [spot_eq]
    exact ⟨inside, kindHere, _, here⟩

/-- Getting on by a character is a move. -/
theorem stride_of_forced {state : ScanState} (good : state.Good grammar text)
    (inside : state.position < text.size) (style : StyleId) :
    grammar.Stride text state ⟨some ⟨state.position, text.next state.position, style, [], .inner, false⟩,
      ⟨text.next state.position, state.stack, none⟩⟩ := by
  have further := text.lt_next state.position
  refine ⟨⟨Text.isBoundary_next inside, good.known, fun _ member => nomatch member⟩, Or.inl further,
    (fun missing => nomatch missing), fun token member => ?_, fun token member plain => ?_⟩
  · cases member
    exact ⟨⟨further, fun _ member => nomatch member⟩, rfl, rfl, rfl⟩
  · cases member
    cases plain

/-- The next character is told by the window. -/
theorem forcedMove_eq (held : text.Held) {window : Window} {state : ScanState} {style : StyleId}
    (styled : state.stack.style grammar = .ok style)
    (searches : grammar.Searches text window state.position) :
    grammar.forcedMove window state =
      .ok ⟨some ⟨state.position, text.next state.position, style, [], .inner, false⟩,
        ⟨text.next state.position, state.stack, none⟩⟩ := by
  obtain ⟨stop, covers, offset, within, -⟩ := searches.covers held
  obtain ⟨-, isBoundary, -, -⟩ := searches.inWindow held
  have before := searches.ordered
  have further := text.lt_next state.position
  have next : state.position + (window.subject.next (window.relative state.position) -
      window.relative state.position) = text.next state.position := by
    have start : window.offset + window.relative state.position = state.position :=
      Nat.add_sub_of_le offset
    have shown := covers.next (start.trans_lt (before.trans_le within))
    rw [start] at shown
    omega
  have inText := Text.le_size_of_isBoundary
    (Text.isBoundary_next (before.trans_le (Text.le_size_of_isBoundary searches.stops)))
  have small := held.size_lt_maxSize
  unfold forcedMove
  simp only [isBoundary]
  rw [checkedAdd_eq_ok (by omega), next, styled]
  rfl

/-- The move over a character where a match of no bytes has been used already. -/
theorem forcedMove_leg (wellFormed : grammar.WellFormed) (held : text.Held) {window : Window}
    {state : ScanState} (good : state.Good grammar text)
    (searches : grammar.Searches text window state.position)
    (here : grammar.hop text state.spot = grammar.pass text state.spot)
    (kind : grammar.kindAt text state.spot = .ok .inner) :
    ∃ move, grammar.forcedMove window state = .ok move ∧ grammar.Leg text state move := by
  obtain ⟨style, styled⟩ := good.known.style wellFormed
  have inside := searches.ordered.trans_le (Text.le_size_of_isBoundary searches.stops)
  refine ⟨_, forcedMove_eq held styled searches, ⟨stride_of_forced good inside style, ?_,
    fun token member plain => ?_, fun token member _ => ?_⟩⟩
  · simp only [Option.elim_some, styles_of_plain]
    exact .single inside (here.trans (pass_eq styled))
  · cases member
    cases plain
  · cases member
    exact hops_of_pass styled inside kind here

/-- A region is entered in the same way from the window and from the whole text. -/
theorem entered?_eq (held : text.Held) {window : Window} {position place : Nat}
    (searches : grammar.Searches text window position) {found : Regex.Match}
    (before : place < window.searchEnd)
    (near : (found.moved window.offset).Near text grammar.maxExtend place) (stack : PatternStack)
    (pattern : Pattern) (id : PatternId) :
    entered? window stack pattern id found =
      entered? (.whole text) stack pattern id (found.moved window.offset) := by
  obtain ⟨stop, covers, -, -, seen⟩ := searches.covers held
  have groups : (fun group => found.group? window.subject group) =
      fun group => (found.moved window.offset).group? (Window.whole text).subject group := by
    funext group
    exact Regex.Match.group?_moved covers (by omega) near group
  unfold entered?
  rw [groups]

/-- Where a match of no bytes has been used already the scan gets on by a character. -/
theorem matchMove_of_again {window : Window} {state : ScanState} {choice : Choice}
    (again : (choice.moved window.offset).found.start = (choice.moved window.offset).found.stop ∧
      state.emptyAt = some (choice.moved window.offset).found.start) :
    grammar.matchMove window state choice = grammar.forcedMove window state := by
  rw [Choice.found_moved] at again
  unfold matchMove
  exact if_pos again

/-- Using a match leads behind it, inside of regions that are there. It is the hop of the machine if a
region is entered in the same way from the window and from the whole text. -/
theorem matchMove_eq (wellFormed : grammar.WellFormed) {window : Window} {state : ScanState}
    {choice : Choice} (good : state.Good grammar text)
    (there : ∀ id found, choice = .child id found → ∃ child, grammar.pattern id = .ok child)
    (fresh : ¬ ((choice.moved window.offset).found.start = (choice.moved window.offset).found.stop ∧
      state.emptyAt = some (choice.moved window.offset).found.start)) :
    ∃ kind style captures stack, stack.Known grammar ∧
      grammar.matchMove window state choice =
        .ok ⟨(choice.moved window.offset).found.token style captures kind,
          ⟨(choice.moved window.offset).found.stop, stack,
            if (choice.moved window.offset).found.start = (choice.moved window.offset).found.stop then
              some (choice.moved window.offset).found.start else state.emptyAt⟩⟩ ∧
      ((∀ id found child, choice = .child id found → entered? window state.stack child id found =
          entered? (.whole text) state.stack child id (found.moved window.offset)) →
        grammar.use text state.spot (choice.moved window.offset) =
          .ok ((choice.moved window.offset).found.styles style captures,
            ⟨(choice.moved window.offset).found.stop, stack,
              (choice.moved window.offset).found.start =
                (choice.moved window.offset).found.stop⟩) ∧
        grammar.kindOf text state.spot (choice.moved window.offset) = .ok kind) := by
  obtain ⟨captures, style, stack, uses, stackKnown⟩ :=
    exists_uses wellFormed window good.known there
  unfold matchMove
  simp only
  rw [← Choice.found_moved, if_neg fresh]
  cases uses with
  | @closing found top style known styled =>
    refine ⟨.closing, style, top.closingCaptures, state.stack.outer, stackKnown, ?_, fun _ => ?_⟩
    · simp only [styled, known, Fault.ok_bind]
      rfl
    · exact ⟨use_eq_ok_iff.mpr ⟨_, style, _, .closing known styled, rfl, rfl⟩, rfl⟩
  | @opening id opening child pushed style known enters styled =>
    refine ⟨.opening, style, child.openingCaptures, stack, stackKnown, ?_, fun same => ?_⟩
    · simp only [known, enters, styled, Fault.ok_bind]
      rfl
    · have entered := (same id opening child rfl).symm.trans enters
      refine ⟨use_eq_ok_iff.mpr ⟨_, style, stack, .opening known entered styled, rfl, rfl⟩, ?_⟩
      simp only [kindOf, Choice.moved, ScanState.spot, known, entered, Fault.ok_bind]
      rfl
  | @whole id opening child style known stays styled =>
    refine ⟨.inner, style, child.openingCaptures, state.stack, stackKnown, ?_, fun same => ?_⟩
    · simp only [known, stays, styled, Fault.ok_bind]
      rfl
    · have stayed := (same id opening child rfl).symm.trans stays
      refine ⟨use_eq_ok_iff.mpr ⟨_, style, _, .whole known stayed styled, rfl, rfl⟩, ?_⟩
      simp only [kindOf, Choice.moved, ScanState.spot, known, stayed, Fault.ok_bind]
      rfl

/-- The move over the match that the machine finds where the scan is can be made, and is a hop. -/
theorem matchMove_leg (wellFormed : grammar.WellFormed) (isLocal : grammar.Local)
    (held : text.Held) {window : Window} {state : ScanState} {pattern : Pattern} {choice : Choice}
    (good : state.Good grammar text)
    (known : grammar.pattern state.stack.top.pattern = .ok pattern)
    (searches : grammar.Searches text window state.position)
    (here : grammar.choiceAt pattern state.stack.top.pushed text state.position =
      some (choice.moved window.offset)) :
    ∃ move, grammar.matchMove window state choice = .ok move ∧ grammar.Leg text state move := by
  have before := searches.ordered
  have inside := before.trans_le (Text.le_size_of_isBoundary searches.stops)
  have near := near_of_choiceAt isLocal held (mem_of_pattern known) inside good.boundary here
  have used : state.spot.used = true ↔ state.emptyAt = some (choice.moved window.offset).found.start := by
    rw [near.start]
    exact decide_eq_true_iff
  by_cases again : (choice.moved window.offset).found.start =
      (choice.moved window.offset).found.stop ∧
        state.emptyAt = some (choice.moved window.offset).found.start
  · rw [matchMove_of_again again]
    have twice := And.intro again.1 (used.mpr again.2)
    exact forcedMove_leg wellFormed held good searches (hop_of_again known here twice)
      (kindAt_of_again known here twice)
  · have fresh := fun both : (choice.moved window.offset).found.start =
      (choice.moved window.offset).found.stop ∧ state.spot.used = true =>
        again ⟨both.1, used.mp both.2⟩
    obtain ⟨kind, style, captures, stack, stackKnown, moved, isHop⟩ :=
      matchMove_eq wellFormed good
        (fun id found same => by
          subst same
          exact exists_of_choiceAt_child here) again
    obtain ⟨uses, kindOf⟩ := isHop fun id found child same => by
      subst same
      exact entered?_eq held searches before near state.stack child id
    exact ⟨_, moved, leg_of_match good inside near stackKnown again
      ((hop_of_fresh known here fresh).trans uses) ((kindAt_of_fresh known here fresh).trans kindOf)⟩

end Grammar

end Highlight
