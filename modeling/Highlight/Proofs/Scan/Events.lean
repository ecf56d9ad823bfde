/-
**What has led to the moves of a scan.**

The moves of a scan are told with the state in which each was made and with why it was made: because
nothing matches, because of a match of no bytes that has been used already, or because of a match that was
found in some window. Nothing is asked of the regexes for this:

* `Cause`, `Event`: why a move is made, and the move with its cause;
* `Grammar.Causes`: the grammar gives rise to an event;
* `Grammar.History`: events each of which happens in the state that the one before led to;
* `Scanner.Tells`, `Scanner.exists_tells`: **the events of a scan**, which there are for every scan that
  goes well;
* `Grammar.Session`: scans each of which is taken up in the state where the one before ended.
-/

import Highlight.Proofs.Scan.Nested

namespace Highlight

/-! ### Events -/

/-- Why a scan makes a move. -/
inductive Cause where
  /-- Nothing matches before the place that the move leads to. -/
  | plain
  /-- A match of no bytes was found where one had been used already. -/
  | forced
  /-- A match was found where the scan is. -/
  | used (window : Window) (choice : Choice)

/-- A move of a scan, with the state that it was made in and the reason why. -/
structure Event where
  before : ScanState
  cause : Cause
  move : Move

namespace Grammar

/-- A scan has found in a window what it uses next. It has looked for it from where it is, or from before
the text in front of the match. -/
def Finds (grammar : Grammar) (text : Text) (window : Window) (state : ScanState) (choice : Choice) :
    Prop :=
  ∃ origin, grammar.Looks text window origin ∧
    grammar.choose window { state with position := origin } = .ok (some choice) ∧
      state.position = max origin (window.offset + choice.found.start)

/-- The grammar gives rise to an event in a scan of the text. -/
inductive Causes (grammar : Grammar) (text : Text) : Event → Prop where
  | plain {state : ScanState} {window : Window} {next : Option Choice} {stop : Nat} {move : Move}
      (looks : grammar.Looks text window state.position)
      (chosen : grammar.choose window state = .ok next)
      (upTo : stop = next.elim window.searchEnd fun choice => window.offset + choice.found.start)
      (ahead : state.position < stop) (moved : grammar.plainMove state stop = .ok move) :
      Causes grammar text ⟨state, .plain, move⟩
  | forced {state : ScanState} {window : Window} {choice : Choice} {move : Move}
      (finds : grammar.Finds text window state choice) (again : Again window state choice)
      (moved : grammar.forcedMove window state = .ok move) :
      Causes grammar text ⟨state, .forced, move⟩
  | used {state : ScanState} {window : Window} {choice : Choice} {move : Move}
      (finds : grammar.Finds text window state choice) (fresh : ¬ Again window state choice)
      (moved : grammar.matchMove window state choice = .ok move) :
      Causes grammar text ⟨state, .used window choice, move⟩

/-- Events each of which happens in the state that the one before led to. -/
inductive History (grammar : Grammar) (text : Text) : ScanState → List Event → ScanState → Prop where
  | nil {state : ScanState} : History grammar text state [] state
  | cons {state final : ScanState} {event : Event} {rest : List Event} (starts : event.before = state)
      (caused : grammar.Causes text event)
      (history : History grammar text event.move.state rest final) :
      History grammar text state (event :: rest) final

variable {grammar : Grammar} {text : Text}

theorem History.append {state middle final : ScanState} {events others : List Event}
    (first : grammar.History text state events middle)
    (second : grammar.History text middle others final) :
    grammar.History text state (events ++ others) final := by
  induction first with
  | nil => exact second
  | cons starts caused _ ih => exact .cons starts caused (ih second)

/-- What has happened before an event of a history led to it. -/
theorem History.split {state final : ScanState} {earlier later : List Event} {event : Event}
    (history : grammar.History text state (earlier ++ event :: later) final) :
    grammar.History text state earlier event.before ∧ grammar.Causes text event := by
  induction earlier generalizing state with
  | nil =>
    cases history with
    | cons starts caused _ => exact ⟨starts ▸ .nil, caused⟩
  | cons first rest ih =>
    cases history with
    | cons starts caused history =>
      obtain ⟨before, causedToo⟩ := ih history
      exact ⟨.cons starts caused before, causedToo⟩

/-- A scan that uses what it has found in a window, or gets on by a character where it may not. -/
theorem exists_event {window : Window} {state : ScanState} {choice : Choice} {move : Move}
    (finds : grammar.Finds text window state choice)
    (moved : grammar.matchMove window state choice = .ok move) :
    ∃ cause, grammar.Causes text ⟨state, cause, move⟩ := by
  by_cases again : Again window state choice
  · exact ⟨_, .forced finds again ((matchMove_of_again again).symm.trans moved)⟩
  · exact ⟨_, .used finds again moved⟩

end Grammar

/-! ### Scans -/

namespace Scanner

variable {σ : Type} {scanner : Scanner} {sink : Sink σ} {window : Window} {state : ScanState}
  {collected : σ} {after : Progress σ} {limit : Nat} {text : Text}

/-- The moves of a step have causes. -/
theorem Steps.exists_history {moves : List Move}
    (looks : scanner.grammar.Looks text window state.position)
    (steps : Steps scanner sink window state collected moves after) :
    ∃ events, events.map Event.move = moves ∧
      scanner.grammar.History text state events after.state := by
  have single : ∀ {cause : Cause} {move : Move}, scanner.grammar.Causes text ⟨state, cause, move⟩ →
      deliver sink collected move = .ok after →
        ∃ events, events.map Event.move = [move] ∧
          scanner.grammar.History text state events after.state := by
    intro cause move caused handed
    rw [deliver_state handed]
    exact ⟨[⟨state, cause, move⟩], rfl, .cons rfl caused .nil⟩
  cases steps with
  | none found moved handed =>
    have chosen := Grammar.choose_of_search found
    exact single (.plain looks chosen rfl looks.ordered moved) handed
  | here found start moved handed =>
    have chosen := Grammar.choose_of_search found
    obtain ⟨cause, caused⟩ := Grammar.exists_event
      ⟨state.position, looks, chosen, (max_eq_left (not_lt.mp start)).symm⟩ moved
    exact single caused handed
  | halted found start moved handed _ =>
    have chosen := Grammar.choose_of_search found
    exact single (.plain looks chosen rfl start moved) handed
  | @ahead choice before move middle after found start moved handed _ movedOver handedToo =>
    have chosen := Grammar.choose_of_search found
    -- The match was found from where the text before it begins.
    have finds : scanner.grammar.Finds text window before.state choice := by
      obtain ⟨style, -, rfl⟩ := Grammar.plainMove_eq_ok moved
      exact ⟨state.position, looks, chosen, (max_eq_right start.le).symm⟩
    rw [deliver_state handed] at movedOver
    obtain ⟨cause, caused⟩ := Grammar.exists_event finds movedOver
    rw [deliver_state handedToo]
    exact ⟨[⟨state, .plain, before⟩, ⟨before.state, cause, move⟩], rfl,
      .cons rfl (.plain looks chosen rfl start moved) (.cons rfl caused .nil)⟩

/-- The moves in a window have causes. -/
theorem Searched.exists_history {steps : List (List Move)}
    (looks : state.position < window.searchEnd → scanner.grammar.Looks text window state.position)
    (searched : Searched scanner sink window limit state collected steps after) :
    ∃ events, events.map Event.move = steps.flatten ∧
      scanner.grammar.History text state events after.state := by
  induction searched with
  | ended => exact ⟨[], rfl, .nil⟩
  | last inside steps _ =>
    rw [List.flatten_singleton]
    exact steps.exists_history (looks inside)
  | @step state _ _ _ next _ inside steps _ _ smaller _ ih =>
    obtain ⟨events, same, history⟩ := steps.exists_history (looks inside)
    -- The bound of the steps that are left gets smaller, so no step leads back.
    have forward : state.position ≤ next.state.position := by
      unfold Window.budget at smaller
      split at smaller <;> split at smaller <;> omega
    obtain ⟨others, sameToo, historyToo⟩ := ih fun insideToo => by
      obtain ⟨stops, -, start, earlier, around⟩ := looks inside
      exact ⟨stops, insideToo, start, earlier.trans forward, around⟩
    refine ⟨events ++ others, ?_, history.append historyToo⟩
    rw [List.map_append, same, sameToo, List.flatten_cons]

/-- **The moves of a scan have causes.** -/
theorem Scanned.exists_history {steps : List (List Move)}
    (scanned : Scanned scanner text sink limit state collected steps after) :
    ∃ events, events.map Event.move = steps.flatten ∧
      scanner.grammar.History text state events after.state := by
  have looking : ∀ {state : ScanState} {stop : Nat} {window : Window},
      Window.around text state.position (text.ceil stop) scanner.grammar.maxExtend = .ok window →
        state.position < window.searchEnd →
          scanner.grammar.Looks text window state.position := by
    intro state stop window around inside
    have searchEnd := (Window.covers_of_around around).1
    refine ⟨?_, inside, state.position, le_rfl, ?_⟩
    · rw [searchEnd]
      exact Text.isBoundary_ceil text stop
    · rw [searchEnd]
      exact around
  induction scanned with
  | ended => exact ⟨[], rfl, .nil⟩
  | halted _ _ around searched _ => exact searched.exists_history (looking around)
  | window _ _ around searched _ _ _ ih =>
    obtain ⟨events, same, history⟩ := searched.exists_history (looking around)
    obtain ⟨others, sameToo, historyToo⟩ := ih
    refine ⟨events ++ others, ?_, history.append historyToo⟩
    rw [List.map_append, same, sameToo, List.flatten_append]

/-- Events tell a scan: they are those of the moves it has made. -/
structure Tells (scanner : Scanner) (text : Text) (sink : Sink σ) (limit : Nat) (state : ScanState)
    (collected : σ) (events : List Event) (after : Progress σ) : Prop where
  scanned : ∃ steps, Scanned scanner text sink (min limit text.size) state collected steps after ∧
    steps.flatten = events.map Event.move
  history : scanner.grammar.History text state events after.state

/-- **Every scan that goes well is told by events.** -/
theorem exists_tells {final : ScanState} {ending : ScanEnd} {gathered : σ}
    (went : scanner.run text sink limit state collected = .ok (gathered, final, ending)) :
    ∃ events flow, scanner.Tells text sink limit state collected events ⟨gathered, final, flow⟩ := by
  unfold run at went
  obtain ⟨⟨after, stop, flow⟩, scans, done⟩ := Fault.bind_eq_ok.mp went
  cases done
  obtain ⟨steps, scanned⟩ := scanTo_eq_ok_iff.mp scans
  obtain ⟨events, same, history⟩ := scanned.exists_history
  exact ⟨events, flow, ⟨steps, scanned, same.symm⟩, history⟩

end Scanner

namespace Grammar

/-- Scans of a text, each of which is taken up in the state where the one before ended, with any sink, up to
any limit and searching any number of bytes at a time. -/
inductive Session (grammar : Grammar) (text : Text) (start : ScanState) :
    List Event → ScanState → Prop where
  | nil : Session grammar text start [] start
  | scan {events more : List Event} {state : ScanState} {σ : Type} {sink : Sink σ} {unit limit : Nat}
      {collected : σ} {after : Progress σ} (session : Session grammar text start events state)
      (tells : (Scanner.ofUnit grammar unit).Tells text sink limit state collected more after) :
      Session grammar text start (events ++ more) after.state

theorem Session.history {grammar : Grammar} {text : Text} {start final : ScanState}
    {events : List Event} (session : grammar.Session text start events final) :
    grammar.History text start events final := by
  induction session with
  | nil => exact .nil
  | scan _ tells ih => exact ih.append tells.history

end Grammar

end Highlight
