/-
**What a scan hands to a sink.**

Whatever a sink makes of the tokens, it is given those of the moves that a scan can make, one after the
other, and the scan goes on until its limit unless the sink calls a halt or fails:

* `Grammar.Makes`: moves of some kind that a scan always makes, `Grammar.makes_leg`;
* `Sink.Keeps`: what a sink keeps true over such moves;
* `Scanner.run_ends`: **a scan ends with what its sink keeps true**, whatever the windows were.
-/

import Highlight.Proofs.Scan.Legs

namespace Highlight

/-! ### Moves that are always made -/

namespace Grammar

variable {grammar : Grammar} {text : Text}

/-- A scan gets to the match that it uses next, or to the end of the window, by moves of some kind. -/
inductive Approaches (grammar : Grammar) (made : ScanState → Move → Prop) (window : Window)
    (state : ScanState) : Option Choice → Prop where
  | none {move : Move} (moved : grammar.plainMove state window.searchEnd = .ok move)
      (isMade : made state move) : Approaches grammar made window state none
  | here {choice : Choice} {move : Move} (start : window.offset + choice.found.start = state.position)
      (moved : grammar.matchMove window state choice = .ok move) (isMade : made state move) :
      Approaches grammar made window state (some choice)
  | ahead {choice : Choice} {plain move : Move}
      (start : state.position < window.offset + choice.found.start)
      (moved : grammar.plainMove state (window.offset + choice.found.start) = .ok plain)
      (isMade : made state plain)
      (stop : plain.state.position = window.offset + choice.found.start)
      (movedOver : grammar.matchMove window plain.state choice = .ok move)
      (isMadeToo : made plain.state move) : Approaches grammar made window state (some choice)

/-- Wherever a scan is in a text, it can get on by moves of some kind. -/
structure Makes (grammar : Grammar) (text : Text) (made : ScanState → Move → Prop) : Prop where
  stride : ∀ {state move}, made state move → grammar.Stride text state move
  approaches : ∀ {window : Window} {state : ScanState}, state.Good grammar text →
    grammar.Searches text window state.position →
      ∃ choice, grammar.search window state = .ok choice ∧
        grammar.Approaches made window state choice

/-- The window that a scan makes for itself is one that it may search. -/
theorem exists_searches (grammar : Grammar) (held : text.Held) {position unit : Nat}
    (boundary : text.isBoundary position = true) (inside : position < text.size)
    (positive : 0 < unit) :
    ∃ window, Window.around text position (text.ceil (position + unit)) grammar.maxExtend = .ok window ∧
      window.searchEnd = text.ceil (position + unit) ∧ grammar.Searches text window position := by
  have reached := Text.min_le_ceil text (position + unit)
  have searchEnd := Text.isBoundary_ceil text (position + unit)
  have ahead : position < text.ceil (position + unit) := by omega
  obtain ⟨window, stop, around, -, end_eq, -, -⟩ := Window.exists_around grammar.maxExtend
    held.size_lt_maxSize.le searchEnd ahead.le
  refine ⟨window, around, end_eq, boundary, ?_, ?_, position, le_rfl, boundary, ?_⟩
  · rw [end_eq]
    exact searchEnd
  · rw [end_eq]
    exact ahead
  · rw [end_eq]
    exact around

/-- **A scan always gets on by moves that are walks of the machine.** -/
theorem makes_leg (wellFormed : grammar.WellFormed) (isLocal : grammar.Local) (held : text.Held) :
    grammar.Makes text (grammar.Leg text) := by
  refine ⟨fun leg => leg.toStride, fun {window state} good searches => ?_⟩
  obtain ⟨pattern, known⟩ := good.known.top wellFormed
  obtain ⟨choice, chosen, first⟩ := choose_first wellFormed isLocal held known searches
  have before := searches.ordered
  cases choice with
  | none =>
    have found := searches.search_eq held chosen fun _ member => nomatch member
    cases first with
    | none quiet =>
      obtain ⟨move, moved, leg, -⟩ := plainMove_leg wellFormed good known searches.stops before quiet
      exact ⟨none, found, .none moved leg⟩
  | some choice =>
    simp only [Option.map_some] at first
    cases first with
    | @some place _ behind inSearch boundary here quiet =>
      have inText := inSearch.trans_le (Text.le_size_of_isBoundary searches.stops)
      have near := near_of_choiceAt isLocal held (mem_of_pattern known) inText boundary here
      have start : window.offset + choice.found.start = place := by
        have start := near.start
        rw [Choice.found_moved] at start
        simp only [Regex.Match.moved] at start
        omega
      have stops := Text.le_size_of_isBoundary near.stops
      have forward := near.ordered
      rw [Choice.found_moved] at stops forward
      simp only [Regex.Match.moved] at stops forward
      refine ⟨some choice, searches.search_eq held chosen fun winner member => ?_, ?_⟩
      · cases member
        omega
      rcases behind.lt_or_eq with ahead | rfl
      · -- The text before the match is a move of its own.
        obtain ⟨plain, moved, leg, state_eq⟩ := plainMove_leg wellFormed good known boundary ahead
          quiet
        have goodPlain := leg.good
        rw [state_eq] at goodPlain
        obtain ⟨move, movedOver, legOver⟩ := matchMove_leg wellFormed isLocal held goodPlain known
          (searches.later behind inSearch boundary) here
        rw [← state_eq] at movedOver legOver
        exact .ahead (start.symm ▸ ahead) (start.symm ▸ moved) leg
          ((congrArg ScanState.position state_eq).trans start.symm) movedOver legOver
      · obtain ⟨move, moved, leg⟩ := matchMove_leg wellFormed isLocal held good known searches here
        exact .here start moved leg

end Grammar

/-! ### Sinks -/

/-- What a sink keeps true over moves of some kind, and what is true when it calls a halt. -/
structure Sink.Keeps {σ : Type} (sink : Sink σ) (grammar : Grammar) (text : Text)
    (made : ScanState → Move → Prop) (kept halted : σ → ScanState → Prop) : Prop where
  silent : ∀ {collected state move}, state.Good grammar text → kept collected state →
    made state move → move.token = none → kept collected move.state
  token : ∀ {collected state move token after flow}, state.Good grammar text →
    kept collected state → made state move → move.token = some token →
    sink collected token move.state = .ok (after, flow) →
      match flow with
      | .proceed => kept after move.state
      | .halt => halted after move.state

/-- An operation went well, and then something is true of its result, or a sink failed in it, or
positions may overflow. -/
def Sink.Ends {σ α : Type} (sink : Sink σ) (overflow : Prop) (result : α → Prop) :
    Except Fault α → Prop
  | .ok value => result value
  | .error fault => (∃ collected token state, sink collected token state = .error fault) ∨ overflow

namespace Sink.Ends

variable {σ α β : Type} {sink : Sink σ} {overflow : Prop} {first : Except Fault α}
  {result : α → Prop}

theorem bind (ends : sink.Ends overflow result first) {second : α → Except Fault β}
    {final : β → Prop} (rest : ∀ value, result value → sink.Ends overflow final (second value)) :
    sink.Ends overflow final (first >>= second) := by
  cases first with
  | error fault => exact ends
  | ok value => exact rest value ends

theorem mono (ends : sink.Ends overflow result first) {other : α → Prop}
    (implies : ∀ value, result value → other value) : sink.Ends overflow other first := by
  cases first with
  | error fault => exact ends
  | ok value => exact implies value ends

/-- An operation goes well if its sink never fails and no position overflows. -/
theorem exists_ok (ends : sink.Ends overflow result first) (fits : ¬ overflow)
    (total : ∀ collected token state, ∃ taken, sink collected token state = .ok taken) :
    ∃ value, first = .ok value ∧ result value := by
  cases first with
  | ok value => exact ⟨value, rfl, ends⟩
  | error fault =>
    rcases ends with ⟨collected, token, state, failed⟩ | overflows
    · obtain ⟨taken, went⟩ := total collected token state
      cases failed.symm.trans went
    · exact absurd overflows fits

end Sink.Ends

namespace Scanner

/-- A scanner searches at least one byte at a time. -/
theorem unit_pos (grammar : Grammar) (unit : Nat) : 0 < (ofUnit grammar unit).unit := by
  show 0 < max unit 1
  omega

variable {σ : Type} {sink : Sink σ} {overflow : Prop} (scanner : Scanner) {text : Text}
  {made : ScanState → Move → Prop} {kept halted : σ → ScanState → Prop}

/-- Where a scan has got to, as far as its sink goes. -/
def Reached (grammar : Grammar) (text : Text) (kept halted : σ → ScanState → Prop)
    (further : ScanState → Prop) (progress : Progress σ) : Prop :=
  progress.state.Good grammar text ∧
    match progress.flow with
    | .proceed => kept progress.collected progress.state ∧ further progress.state
    | .halt => halted progress.collected progress.state

theorem Reached.mono {grammar : Grammar} {further other : ScanState → Prop}
    {progress : Progress σ} (reached : Reached grammar text kept halted further progress)
    (implies : ∀ state, further state → other state) :
    Reached grammar text kept halted other progress := by
  rcases progress with ⟨collected, state, flow⟩
  cases flow with
  | proceed => exact ⟨reached.1, reached.2.1, implies state reached.2.2⟩
  | halt => exact reached

/-- Getting on makes the bound of the steps that are left smaller. -/
theorem budget_lt {window : Window} {state after : ScanState}
    (inside : state.position < window.searchEnd)
    (forward : state.position < after.position ∨
      state.position = after.position ∧ state.spot.used = false ∧ after.spot.used = true) :
    window.budget after < window.budget state := by
  unfold Window.budget
  rcases forward with further | ⟨same, unused, used⟩
  · split <;> split <;> omega
  · unfold ScanState.spot at unused used
    rw [if_pos (of_decide_eq_true used), if_neg (of_decide_eq_false unused)]
    omega

variable (makes : scanner.grammar.Makes text made) (held : text.Held)
  (keeps : sink.Keeps scanner.grammar text made kept halted)
include makes keeps

/-- A sink is handed the token of a move. -/
theorem deliver_ends {collected : σ} {state : ScanState} {move : Move}
    (good : state.Good scanner.grammar text) (keptBefore : kept collected state)
    (isMade : made state move) :
    sink.Ends overflow (Reached scanner.grammar text kept halted fun after => after = move.state)
      (deliver sink collected move) := by
  have goodAfter := (makes.stride isMade).good
  unfold deliver
  cases delivered : move.token with
  | none => exact ⟨goodAfter, keeps.silent good keptBefore isMade delivered, rfl⟩
  | some token =>
    simp only
    cases taken : sink collected token move.state with
    | error fault => exact Or.inl ⟨collected, token, move.state, taken⟩
    | ok outcome =>
      obtain ⟨after, flow⟩ := outcome
      have next := keeps.token good keptBefore isMade delivered taken
      cases flow with
      | proceed => exact ⟨goodAfter, next, rfl⟩
      | halt => exact ⟨goodAfter, next⟩

/-- The moves up to the next match and over it go well and lead on. -/
theorem step_ends {window : Window} {state : ScanState} {collected : σ}
    (good : state.Good scanner.grammar text) (keptBefore : kept collected state)
    (searches : scanner.grammar.Searches text window state.position) :
    sink.Ends overflow (Reached scanner.grammar text kept halted fun after =>
        window.budget after < window.budget state ∧ state.position ≤ after.position)
      (scanner.step sink window state collected) := by
  obtain ⟨choice, chosen, approaches⟩ := makes.approaches good searches
  have before := searches.ordered
  unfold step
  rw [chosen, Fault.ok_bind]
  have single : ∀ move, made state move →
      sink.Ends overflow (Reached scanner.grammar text kept halted fun after =>
          window.budget after < window.budget state ∧ state.position ≤ after.position)
        (deliver sink collected move) := by
    intro move isMade
    have forward := (makes.stride isMade).forward
    refine (scanner.deliver_ends makes keeps good keptBefore isMade).mono fun progress reached =>
      reached.mono fun after same => ?_
    subst same
    exact ⟨budget_lt before forward, by omega⟩
  cases approaches with
  | none moved isMade =>
    simp only [moved]
    exact single _ isMade
  | here start moved isMade =>
    simp only [start, lt_irrefl, if_false, moved]
    exact single _ isMade
  | ahead start moved isMade stop movedOver isMadeToo =>
    have forwardToo := (makes.stride isMadeToo).forward
    simp only [start, if_true, moved]
    refine (scanner.deliver_ends makes keeps good keptBefore isMade).bind fun progress reached => ?_
    rcases progress with ⟨after, middle, flow⟩
    cases flow with
    | halt => exact reached
    | proceed =>
      obtain ⟨goodMiddle, keptMiddle, same⟩ := reached
      simp only at goodMiddle keptMiddle same
      subst same
      simp only [movedOver]
      refine (scanner.deliver_ends makes keeps goodMiddle keptMiddle isMadeToo).mono
        fun progress reached => reached.mono fun final same => ?_
      subst same
      exact ⟨budget_lt before (Or.inl (by omega)), by omega⟩

/-- A window is searched until it ends or the limit is reached. -/
theorem scanWindow_ends {window : Window} {limit : Nat} {state : ScanState} {collected : σ}
    (good : state.Good scanner.grammar text) (keptBefore : kept collected state)
    (searches : scanner.grammar.Searches text window state.position) :
    sink.Ends overflow (Reached scanner.grammar text kept halted fun after =>
        min limit window.searchEnd ≤ after.position)
      (scanner.scanWindow sink window limit state collected) := by
  induction left : window.budget state using Nat.strong_induction_on
    generalizing state collected with
  | _ left ih =>
    rw [scanWindow, if_pos searches.ordered]
    refine (scanner.step_ends makes keeps good keptBefore searches).bind fun progress reached => ?_
    rcases progress with ⟨after, next, flow⟩
    cases flow with
    | halt => exact reached
    | proceed =>
      obtain ⟨goodNext, keptNext, smaller, behind⟩ := reached
      simp only at goodNext keptNext smaller behind ⊢
      by_cases atLimit : limit ≤ next.position
      · rw [if_pos atLimit]
        exact ⟨goodNext, keptNext, (min_le_left _ _).trans atLimit⟩
      · rw [if_neg atLimit, if_pos smaller]
        rcases lt_or_ge next.position window.searchEnd with inside | ended
        · exact ih _ (left ▸ smaller) goodNext keptNext
            (searches.later behind inside goodNext.boundary) rfl
        · rw [scanWindow, if_neg (not_lt.mpr ended)]
          exact ⟨goodNext, keptNext, (min_le_right _ _).trans ended⟩

include held

/-- Window after window is searched until the limit is reached. If the first window does not begin too
far back for its end to be a size, then none does. -/
theorem scanTo_ends {limit : Nat} {state : ScanState} {collected : σ}
    (fits : state.position < limit → state.position + scanner.unit ≤ maxSize ∨ overflow)
    (positive : 0 < scanner.unit) (within : limit ≤ text.size)
    (good : state.Good scanner.grammar text) (keptBefore : kept collected state) :
    sink.Ends overflow (Reached scanner.grammar text kept halted fun after => limit ≤ after.position)
      (scanner.scanTo text sink limit state collected) := by
  induction left : limit - state.position using Nat.strong_induction_on
    generalizing state collected with
  | _ left ih =>
    rw [scanTo]
    by_cases before : state.position < limit
    · have inside := before.trans_le within
      obtain ⟨window, around, end_eq, searches⟩ :=
        scanner.grammar.exists_searches held good.boundary inside positive
      have reached := Text.min_le_ceil text (state.position + scanner.unit)
      rw [if_pos before]
      by_cases exceeds : ¬ state.position + scanner.unit ≤ maxSize
      · unfold checkedAdd
        rw [if_neg exceeds]
        exact Or.inr ((fits before).resolve_left exceeds)
      rw [checkedAdd_eq_ok (not_not.mp exceeds), Fault.ok_bind]
      simp only [around, Fault.ok_bind]
      refine (scanner.scanWindow_ends makes keeps good keptBefore searches).bind
        fun progress reached => ?_
      rcases progress with ⟨after, next, flow⟩
      cases flow with
      | halt => exact reached
      | proceed =>
        obtain ⟨goodNext, keptNext, further⟩ := reached
        simp only at goodNext keptNext further ⊢
        have ordered := searches.ordered
        have advanced : state.position < next.position := by omega
        rw [if_pos advanced]
        -- A window that is not the last one is shorter than the text.
        have small := held.size_lt
        exact ih (limit - next.position) (by omega)
          (fun beforeToo => Or.inl (by unfold maxSize; omega)) goodNext keptNext rfl
    · rw [if_neg before]
      exact ⟨good, keptBefore, not_lt.mp before⟩

/-- **A scan goes on until its limit or until its sink calls a halt, and ends with what the sink keeps
true or with what is true at the halt.** It goes well unless the sink fails or a position
overflows. -/
theorem run_ends (limit : Nat) {state : ScanState} {collected : σ}
    (fits : state.position < text.size → state.position + scanner.unit ≤ maxSize ∨ overflow)
    (positive : 0 < scanner.unit) (good : state.Good scanner.grammar text)
    (keptBefore : kept collected state) :
    sink.Ends overflow (fun (after, final, ending) => final.Good scanner.grammar text ∧
        (kept after final ∧ min limit text.size ≤ final.position ∧
            (ending = .endOfText ↔ text.size ≤ final.position) ∨
          halted after final ∧ ending = .stopped))
      (scanner.run text sink limit state collected) := by
  unfold run
  refine (scanner.scanTo_ends makes held keeps
    (fun before => fits (before.trans_le (min_le_right _ _))) positive (min_le_right _ _) good
    keptBefore).bind fun progress reached => ?_
  rcases progress with ⟨after, final, flow⟩
  cases flow with
  | halt => exact ⟨reached.1, Or.inr ⟨reached.2, rfl⟩⟩
  | proceed =>
    obtain ⟨goodFinal, keptFinal, further⟩ := reached
    refine ⟨goodFinal, Or.inl ⟨keptFinal, further, ?_⟩⟩
    simp only
    split <;> simp_all

end Scanner

end Highlight
