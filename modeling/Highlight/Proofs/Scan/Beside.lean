/-
**Two scans side by side.**

Which moves a scan makes depends on its sink only as far as the sink ends it. So a relation between what two
scans with different sinks do is shown for the delivery of one token and goes over to the whole scans:

* `Sink.Beside`: such a relation, with one law for each way in which a scan is put together;
* `Sink.Beside.step`, `Sink.Beside.scanWindow`, `Sink.Beside.scanTo`: **it holds between the two scans.**

The stacks that the scans get to may be limited to those of some kind, if the moves of a scan do not lead
from these to others.
-/

import Highlight.Proofs.Scan.Legs

namespace Highlight

namespace Grammar

variable {grammar : Grammar} {state : ScanState} {stop : Nat} {move : Move}

theorem plainMove_eq_ok (moved : grammar.plainMove state stop = .ok move) :
    ∃ style, state.stack.style grammar = .ok style ∧
      move = ⟨some ⟨state.position, stop, style, [], .inner, true⟩,
        { state with position := stop }⟩ := by
  unfold plainMove at moved
  obtain ⟨style, styled, moved⟩ := Fault.bind_eq_ok.mp moved
  cases moved
  exact ⟨style, styled, rfl⟩

theorem plainMove_stack (moved : grammar.plainMove state stop = .ok move) :
    move.state.stack = state.stack := by
  obtain ⟨style, -, rfl⟩ := plainMove_eq_ok moved
  rfl

end Grammar

/-- A delivery leads to where the move does. -/
theorem Scanner.deliver_state {σ : Type} {sink : Sink σ} {collected : σ} {move : Move}
    {after : Progress σ} (handed : deliver sink collected move = .ok after) :
    after.state = move.state := by
  unfold deliver at handed
  cases delivered : move.token with
  | none =>
    rw [delivered] at handed
    cases handed
    rfl
  | some token =>
    rw [delivered] at handed
    obtain ⟨outcome, -, done⟩ := Fault.bind_eq_ok.mp handed
    cases done
    rfl

variable {σ τ : Type}

/-- A relation between parts of two scans, each with a sink of its own, that begin with what the two sinks
have collected. -/
structure Sink.Beside (grammar : Grammar) (shown : PatternStack → Prop) (sink : Sink σ) (other : Sink τ)
    (related : σ → τ → Except Fault (Progress σ) → Except Fault (Progress τ) → Prop) : Prop where
  /-- The moves over a match do not lead to other stacks. -/
  leads : ∀ {window : Window} {state middle : ScanState} {choice : Choice} {move : Move},
    shown state.stack → grammar.choose window state = .ok (some choice) → middle.stack = state.stack →
      grammar.matchMove window middle choice = .ok move → shown move.state.stack
  /-- Both scans are where they were. -/
  rest : ∀ collected gathered {state : ScanState}, shown state.stack →
    related collected gathered (.ok ⟨collected, state, .proceed⟩) (.ok ⟨gathered, state, .proceed⟩)
  /-- Both scans fail before a sink is handed anything. -/
  stuck : ∀ collected gathered fault, related collected gathered (.error fault) (.error fault)
  /-- Both sinks are handed the same token. -/
  token : ∀ collected gathered token {state : ScanState}, shown state.stack →
    related collected gathered (Scanner.deliver sink collected ⟨some token, state⟩)
      (Scanner.deliver other gathered ⟨some token, state⟩)
  /-- One part comes behind the other, unless a sink calls a halt in the first one. -/
  bind : ∀ {collected gathered first firstToo} {second : Progress σ → Except Fault (Progress σ)}
      {secondToo : Progress τ → Except Fault (Progress τ)},
    related collected gathered first firstToo →
    (∀ after state, second ⟨after, state, .halt⟩ = .ok ⟨after, state, .halt⟩) →
    (∀ after state, secondToo ⟨after, state, .halt⟩ = .ok ⟨after, state, .halt⟩) →
    (∀ after afterToo state, first = .ok ⟨after, state, .proceed⟩ → shown state.stack →
      related after afterToo (second ⟨after, state, .proceed⟩)
        (secondToo ⟨afterToo, state, .proceed⟩)) →
    related collected gathered (first >>= second) (firstToo >>= secondToo)

namespace Sink.Beside

variable {scanner : Scanner} {shown : PatternStack → Prop} {sink : Sink σ} {other : Sink τ}
  {related : σ → τ → Except Fault (Progress σ) → Except Fault (Progress τ) → Prop} {state : ScanState}
  (beside : sink.Beside scanner.grammar shown other related)
include beside

/-- The relation holds between the deliveries of one move. -/
theorem deliver {move : Move} (within : shown move.state.stack) (collected : σ) (gathered : τ) :
    related collected gathered (Scanner.deliver sink collected move)
      (Scanner.deliver other gathered move) := by
  rcases move with ⟨- | token, state⟩
  · exact beside.rest collected gathered within
  · exact beside.token collected gathered token within

/-- The relation holds between the moves up to the next match and over it. -/
theorem step (within : shown state.stack) (window : Window) (collected : σ) (gathered : τ) :
    related collected gathered (scanner.step sink window state collected)
      (scanner.step other window state gathered) := by
  unfold Scanner.step
  cases found : scanner.grammar.search window state with
  | error fault => exact beside.stuck collected gathered fault
  | ok choice =>
    simp only [Fault.ok_bind]
    cases choice with
    | none =>
      simp only
      cases moved : scanner.grammar.plainMove state window.searchEnd with
      | error fault => exact beside.stuck collected gathered fault
      | ok move =>
        exact beside.deliver (Grammar.plainMove_stack moved ▸ within) collected gathered
    | some choice =>
      simp only
      split
      · cases moved : scanner.grammar.plainMove state (window.offset + choice.found.start) with
        | error fault => exact beside.stuck collected gathered fault
        | ok move =>
          have sameStack := Grammar.plainMove_stack moved
          refine beside.bind (beside.deliver (sameStack ▸ within) collected gathered)
            (fun _ _ => rfl) (fun _ _ => rfl) ?_
          intro after afterToo middle handed _
          -- The match is still what was chosen in front of the text before it.
          have there : middle = move.state := Scanner.deliver_state handed
          simp only
          cases movedOver : scanner.grammar.matchMove window middle choice with
          | error fault => exact beside.stuck after afterToo fault
          | ok next =>
            have leads := beside.leads within (Grammar.choose_of_search found) (there ▸ sameStack) movedOver
            exact beside.deliver leads after afterToo
      · cases moved : scanner.grammar.matchMove window state choice with
        | error fault => exact beside.stuck collected gathered fault
        | ok move =>
          have leads := beside.leads within (Grammar.choose_of_search found) rfl moved
          exact beside.deliver leads collected gathered

/-- The relation holds between the searches of one window. -/
theorem scanWindow (within : shown state.stack) (window : Window) (limit : Nat) (collected : σ)
    (gathered : τ) :
    related collected gathered (scanner.scanWindow sink window limit state collected)
      (scanner.scanWindow other window limit state gathered) := by
  induction left : window.budget state using Nat.strong_induction_on
    generalizing state collected gathered with
  | _ left ih =>
    rw [Scanner.scanWindow.eq_1, Scanner.scanWindow.eq_1 scanner other]
    split
    · refine beside.bind (beside.step within window collected gathered) (fun _ _ => rfl)
        (fun _ _ => rfl) ?_
      intro after afterToo next _ withinNext
      simp only
      split
      · exact beside.rest after afterToo withinNext
      · split
        · rename_i smaller
          exact ih _ (left ▸ smaller) withinNext after afterToo rfl
        · exact beside.stuck after afterToo .stalled
    · exact beside.rest collected gathered within

/-- **The relation holds between scans up to the same limit.** -/
theorem scanTo (within : shown state.stack) (text : Text) (limit : Nat) (collected : σ)
    (gathered : τ) :
    related collected gathered (scanner.scanTo text sink limit state collected)
      (scanner.scanTo text other limit state gathered) := by
  induction left : limit - state.position using Nat.strong_induction_on
    generalizing state collected gathered with
  | _ left ih =>
    rw [Scanner.scanTo.eq_1, Scanner.scanTo.eq_1 scanner text other]
    split
    · cases checkedAdd state.position scanner.unit with
      | error fault => exact beside.stuck collected gathered fault
      | ok searchEnd =>
        simp only [Fault.ok_bind]
        cases Window.around text state.position (text.ceil searchEnd) scanner.grammar.maxExtend with
        | error fault => exact beside.stuck collected gathered fault
        | ok window =>
          refine beside.bind (beside.scanWindow within window limit collected gathered)
            (fun _ _ => rfl) (fun _ _ => rfl) ?_
          intro after afterToo next _ withinNext
          simp only
          split
          · exact ih (limit - next.position) (by omega) withinNext after afterToo rfl
          · exact beside.stuck after afterToo .stalled
    · exact beside.rest collected gathered within

end Sink.Beside

end Highlight
