/-
**The regions on a stack lie inside of each other.**

A region is entered only as a child of the innermost one, and the root is never left. So the frames of a
stack form a path in the grammar from the root on, whatever has been scanned:

* `PatternStack.Nested`: such a stack, which has sixteen frames at most;
* `PatternStack.Nested.exists_pattern`: every frame of it has a pattern of the grammar;
* `Grammar.choose_offers`: what a scan uses next is offered by the innermost frame, and so the root does
  not end, `Grammar.Rooted.pop`;
* `Grammar.matchMove_nested`, `Scanner.Scanned.nested`: **moves lead from nested stacks to nested ones**;
* `Scanner.ShowsOnly`, `Scanner.showsOnly_nested`: **no sink is ever shown another stack**, even by a scan
  that fails later;
* `Scanner.run_keeps`: what a sink keeps as long as it is shown nested stacks is true after a scan.
-/

import Mathlib.Data.List.Chain
import Highlight.Proofs.Scan.Trace

namespace Highlight

namespace Grammar

/-- A frame may lie directly inside of another one: its pattern is a region and a child of the other's. -/
def Encloses (grammar : Grammar) (outer inner : Frame) : Prop :=
  ∃ pattern child, grammar.pattern outer.pattern = .ok pattern ∧ inner.pattern ∈ pattern.children ∧
    grammar.pattern inner.pattern = .ok child ∧ child.isRegion = true

/-- The root is there and does not end. -/
def Rooted (grammar : Grammar) : Prop :=
  ∃ pattern, grammar.pattern rootPattern = .ok pattern ∧ pattern.closing = none

end Grammar

/-! ### Stacks -/

namespace PatternStack

variable {grammar : Grammar} {stack : PatternStack}

/-- The frames of a stack form a path in the grammar that begins at the root. -/
structure Nested (grammar : Grammar) (stack : PatternStack) : Prop where
  nonempty : 1 ≤ stack.frames.length
  few : stack.frames.length ≤ maxDepth
  root : stack.frames.head? = some rootFrame
  encloses : stack.frames.IsChain grammar.Encloses
  known : stack.Known grammar

theorem frames_cons (frame : Frame) (regions : List Frame) :
    frames ⟨frame :: regions⟩ = frames ⟨regions⟩ ++ [frame] := by
  unfold frames
  rw [List.reverse_cons, List.cons_append]

theorem getLast?_frames (stack : PatternStack) : stack.frames.getLast? = some stack.top := by
  rcases stack with ⟨- | ⟨frame, regions⟩⟩
  · rfl
  · rw [frames_cons, List.getLast?_concat]
    rfl

theorem length_frames (stack : PatternStack) : stack.frames.length = stack.depth := by
  unfold frames depth
  rw [List.length_cons, List.length_reverse]

theorem nested_root (grammar : Grammar) : root.Nested grammar where
  nonempty := le_rfl
  few := by decide
  root := rfl
  encloses := .singleton _
  known := known_root grammar

/-- Leaving the innermost region leaves the others. -/
theorem Nested.outer (nested : stack.Nested grammar) : stack.outer.Nested grammar := by
  rcases stack with ⟨- | ⟨frame, regions⟩⟩
  · exact nested
  · have few := nested.few
    have encloses := nested.encloses
    rw [frames_cons] at few encloses
    rw [List.length_append, List.length_singleton] at few
    exact ⟨Nat.succ_le_succ (Nat.zero_le _), (Nat.le_succ _).trans few, rfl, encloses.left_of_append,
      nested.known.outer⟩

/-- A region is entered inside of the innermost one, if there is room. -/
theorem Nested.push (nested : stack.Nested grammar) {frame : Frame} {pushed : PatternStack}
    (encloses : grammar.Encloses stack.top frame) (fits : stack.push frame = some pushed) :
    pushed.Nested grammar := by
  have ⟨_, _, _, _, there, _⟩ := encloses
  have known := nested.known.push there fits
  unfold PatternStack.push at fits
  split at fits
  · cases fits
  · rename_i room
    cases fits
    unfold isFull at room
    rw [decide_eq_true_eq, ← length_frames] at room
    refine ⟨Nat.succ_le_succ (Nat.zero_le _), ?_, rfl, ?_, known⟩
    · rw [frames_cons, List.length_append, List.length_singleton]
      exact not_le.mp room
    · rw [frames_cons, List.isChain_append]
      refine ⟨nested.encloses, .singleton _, fun last isLast inner isInner => ?_⟩
      rw [getLast?_frames] at isLast
      cases isLast
      cases isInner
      exact encloses

/-- Every look-up of a frame's pattern is in range. -/
theorem Nested.exists_pattern (nested : stack.Nested grammar) (rooted : grammar.Rooted) :
    ∀ frame ∈ stack.frames, ∃ pattern, grammar.pattern frame.pattern = .ok pattern := by
  intro frame member
  rcases List.mem_cons.mp member with rfl | region
  · obtain ⟨pattern, there, -⟩ := rooted
    exact ⟨pattern, there⟩
  · exact nested.known frame (List.mem_reverse.mp region)

end PatternStack

/-! ### What may be used next -/

namespace Regex.Matcher

/-- A search gives what one of its attempts does. -/
theorem exists_attempt_of_firstFrom {α : Type} {subject : Text} {attempt : Nat → Option α}
    {position stop : Nat} {found : α} (here : firstFrom subject attempt position stop = some found) :
    ∃ place, position ≤ place ∧ place < stop ∧ attempt place = some found := by
  fun_induction firstFrom subject attempt position stop with
  | case1 position before result matched =>
    cases here
    exact ⟨position, le_rfl, before, matched⟩
  | case2 position before missing ih =>
    obtain ⟨place, behind, inside, matched⟩ := ih here
    exact ⟨place, (lt_after subject position).le.trans behind, inside, matched⟩
  | case3 position reached => cases here

/-- What a search for an accepted match finds has matched behind where the search began, and has been
accepted. -/
theorem exists_attempt_of_findAt {matcher : Matcher} {subject : Text} {start stop : Nat}
    {flags : SearchFlags} {accept : Nat → Match → Bool} {offered : List Match} {offers : Offers}
    {found : Match} (went : matcher.findAt subject start stop flags accept offered = .ok offers)
    (accepted : offers.accepted = some found) :
    ∃ origin place number, start ≤ origin ∧ origin ≤ place ∧ place < stop ∧ found.start < stop ∧
      matcher.attempt subject origin place flags = some found ∧ accept number found = true := by
  induction width : stop - start using Nat.strong_induction_on generalizing start offered with
  | _ width ih =>
  rw [findAt] at went
  by_cases nonempty : start < stop
  · by_cases beyond : start > subject.size
    · simp only [nonempty, beyond, if_true] at went
      cases went
    · simp only [nonempty, beyond, if_true, if_false] at went
      cases result : matcher.search subject start stop flags with
      | none =>
        rw [result] at went
        cases went
        cases accepted
      | some other =>
        simp only [result] at went
        split at went
        · cases went
          cases accepted
        · split at went
          · rename_i inside accepts
            cases went
            cases accepted
            obtain ⟨place, behind, before, matched⟩ := exists_attempt_of_firstFrom result
            exact ⟨start, place, _, le_rfl, behind, before, not_le.mp inside, matched, accepts⟩
          · -- The search goes on behind a match that is refused.
            split at went
            · cases went
            · split at went
              · rename_i further
                obtain ⟨origin, place, number, later, rest⟩ := ih _ (by omega) went rfl
                exact ⟨origin, place, number, further.le.trans later, rest⟩
              · cases went
  · rw [if_neg nonempty] at went
    cases went
    cases accepted

end Regex.Matcher

namespace Grammar

variable {grammar : Grammar} {stack : PatternStack}

/-- A closing match starts before the end of the search, so that the end of its first byte is a size like
the end of the search. -/
theorem start_lt_of_closing? {pattern : Pattern} {pushed : Option Text} {window : Window}
    {position : Nat} {ending : Regex.Match}
    (closes : grammar.closing? pattern pushed window position = .ok (some ending)) :
    ending.start < window.relative window.searchEnd := by
  unfold closing? at closes
  split at closes
  · cases closes
  · obtain ⟨regex, -, closes⟩ := Fault.bind_eq_ok.mp closes
    obtain ⟨offers, went, accepted⟩ := Fault.bind_eq_ok.mp closes
    obtain ⟨_, _, _, -, -, -, before, -⟩ :=
      Regex.Matcher.exists_attempt_of_findAt went (Fault.pure_eq_ok.mp accepted)
    exact before

/-- The regex that a scan tries inside of a region for what it uses next: the one that ends the region,
which has to repeat what is remembered, or the one that a child begins with. -/
inductive Tries (grammar : Grammar) (pattern : Pattern) (pushed : Option Text) (subject : Text) :
    Choice → Regex.Matcher → Prop where
  | closing {found : Regex.Match} {id : RegexId} {regex : Regex} (closes : pattern.closing = some id)
      (there : grammar.regexes[id]? = some regex)
      (repeated : repeats pattern pushed subject found = true) :
      Tries grammar pattern pushed subject (.closing found) regex.alone
  | child {id : PatternId} {found : Regex.Match} {matcher : Regex.Matcher}
      (member : (id, matcher) ∈ grammar.members pattern) :
      Tries grammar pattern pushed subject (.child id found) matcher

/-- What a scan uses is what one of these regexes has matched, not before where the scan was. -/
theorem exists_attempt_of_choose {window : Window} {state : ScanState} {choice : Choice}
    (chosen : grammar.choose window state = .ok (some choice)) :
    ∃ pattern matcher origin place, grammar.pattern state.stack.top.pattern = .ok pattern ∧
      grammar.Tries pattern state.stack.top.pushed window.subject choice matcher ∧
      window.relative state.position ≤ origin ∧ origin ≤ place ∧
      place < window.relative window.searchEnd ∧
      matcher.attempt window.subject origin place window.flags = some choice.found := by
  unfold choose at chosen
  obtain ⟨pattern, top, chosen⟩ := Fault.bind_eq_ok.mp chosen
  obtain ⟨ending, closes, chosen⟩ := Fault.bind_eq_ok.mp chosen
  rcases exists_of_between (Fault.pure_eq_ok.mp chosen) with
    ⟨found, rfl, rfl⟩ | ⟨id, found, start, rfl⟩
  · unfold closing? at closes
    cases closing : pattern.closing with
    | none =>
      rw [closing] at closes
      cases closes
    | some id =>
      rw [closing] at closes
      obtain ⟨regex, there, closes⟩ := Fault.bind_eq_ok.mp closes
      obtain ⟨offers, went, accepted⟩ := Fault.bind_eq_ok.mp closes
      obtain ⟨origin, place, _, behind, later, before, -, matched, repeated⟩ :=
        Regex.Matcher.exists_attempt_of_findAt went (Fault.pure_eq_ok.mp accepted)
      have compiled : grammar.regexes[id]? = some regex := by
        unfold Grammar.regex at there
        split at there
        · cases there
          assumption
        · cases there
      exact ⟨pattern, _, origin, place, top, .closing closing compiled repeated, behind, later, before,
        matched⟩
  · unfold child? Regex.Matcher.searchAll at start
    obtain ⟨place, behind, before, here⟩ :=
      Regex.Matcher.exists_attempt_of_firstFrom (Option.filter_eq_some_iff.mp start).1
    obtain ⟨⟨other, matcher⟩, member, attempt⟩ := List.exists_of_findSome?_eq_some here
    obtain ⟨matched, attempted, same⟩ := Option.map_eq_some_iff.mp attempt
    cases same
    exact ⟨pattern, matcher, _, place, top, .child member, le_rfl, behind,
      before.trans_le (childLimit_le _ _), attempted⟩

/-- What a scan may use inside of some regions: the closing match of the innermost one, if it can end, or
the opening match of a child of it. -/
def Offers (grammar : Grammar) (stack : PatternStack) (choice : Choice) : Prop :=
  ∃ pattern, grammar.pattern stack.top.pattern = .ok pattern ∧
    match choice with
    | .closing _ => pattern.closing ≠ none
    | .child id _ => id ∈ pattern.children

/-- What a scan uses is offered by the innermost frame. -/
theorem choose_offers {window : Window} {state : ScanState} {choice : Choice}
    (chosen : grammar.choose window state = .ok (some choice)) : grammar.Offers state.stack choice := by
  obtain ⟨pattern, matcher, _, _, top, tries, -⟩ := exists_attempt_of_choose chosen
  refine ⟨pattern, top, ?_⟩
  cases tries with
  | closing closes => exact closes ▸ Option.some_ne_none _
  | child member => exact (exists_of_mem_members member).1

/-- Where something ends, there is a region to leave. -/
theorem Rooted.pop (rooted : grammar.Rooted) {found : Regex.Match}
    (offers : grammar.Offers stack (.closing found)) :
    stack.pop = some (stack.top, stack.outer) := by
  rcases stack with ⟨- | ⟨frame, regions⟩⟩
  · obtain ⟨pattern, there, closes⟩ := offers
    obtain ⟨root, isRoot, endless⟩ := rooted
    cases there.symm.trans isRoot
    exact absurd endless closes
  · rfl

/-! ### Moves -/

theorem forcedMove_eq_ok {window : Window} {state : ScanState} {move : Move}
    (moved : grammar.forcedMove window state = .ok move) :
    ∃ style stop, state.stack.style grammar = .ok style ∧ state.position < stop ∧
      move = ⟨some ⟨state.position, stop, style, [], .inner, false⟩, ⟨stop, state.stack, none⟩⟩ := by
  unfold forcedMove at moved
  simp only at moved
  split at moved
  · cases moved
  · obtain ⟨stop, added, moved⟩ := Fault.bind_eq_ok.mp moved
    obtain ⟨style, styled, moved⟩ := Fault.bind_eq_ok.mp moved
    obtain ⟨-, rfl⟩ := checkedAdd_eq_ok_iff.mp added
    cases moved
    have further := window.subject.lt_next (window.relative state.position)
    exact ⟨style, _, styled, by omega, rfl⟩

theorem entered?_eq_ite (window : Window) (stack : PatternStack) (pattern : Pattern) (id : PatternId)
    (found : Regex.Match) :
    entered? window stack pattern id found =
      if pattern.isRegion = true ∧ stack.isFull = false then
        some ⟨⟨id, pattern.pushCapture.bind (found.group? window.subject)⟩ :: stack.regions⟩
      else none := by
  unfold entered? PatternStack.push
  cases pattern.isRegion <;> cases stack.isFull <;> rfl

/-- Whether a match has no bytes and one has been used there already. -/
def Again (window : Window) (state : ScanState) (choice : Choice) : Prop :=
  (choice.moved window.offset).found.start = (choice.moved window.offset).found.stop ∧
    state.emptyAt = some (choice.moved window.offset).found.start

/-- The move over a match, unless it is one that has been used already. -/
theorem matchMove_eq_ok {window : Window} {state : ScanState} {choice : Choice} {move : Move}
    (fresh : ¬ Again window state choice)
    (moved : grammar.matchMove window state choice = .ok move) :
    ∃ captures style stack kind emptyAt, grammar.Uses window state.stack choice captures style stack ∧
      move = ⟨(choice.found.moved window.offset).token style captures kind,
        ⟨(choice.found.moved window.offset).stop, stack, emptyAt⟩⟩ := by
  unfold Again at fresh
  unfold matchMove at moved
  rw [Choice.found_moved] at fresh
  simp only at moved
  rw [if_neg fresh] at moved
  cases choice with
  | closing found =>
    obtain ⟨style, styled, moved⟩ := Fault.bind_eq_ok.mp moved
    obtain ⟨top, there, moved⟩ := Fault.bind_eq_ok.mp moved
    cases moved
    exact ⟨_, _, _, _, _, .closing there styled, rfl⟩
  | child id found =>
    obtain ⟨child, there, moved⟩ := Fault.bind_eq_ok.mp moved
    cases enters : entered? window state.stack child id found with
    | some pushed =>
      rw [enters] at moved
      obtain ⟨style, styled, moved⟩ := Fault.bind_eq_ok.mp moved
      cases moved
      exact ⟨_, _, _, _, _, .opening there enters styled, rfl⟩
    | none =>
      rw [enters] at moved
      obtain ⟨style, styled, moved⟩ := Fault.bind_eq_ok.mp moved
      cases moved
      exact ⟨_, _, _, _, _, .whole there enters styled, rfl⟩

/-- A child that is entered is a region. -/
theorem entered?_nested {window : Window} {pushed : PatternStack} {pattern child : Pattern}
    {id : PatternId} {found : Regex.Match} (nested : stack.Nested grammar)
    (top : grammar.pattern stack.top.pattern = .ok pattern) (isChild : id ∈ pattern.children)
    (there : grammar.pattern id = .ok child)
    (enters : entered? window stack child id found = some pushed) : pushed.Nested grammar := by
  unfold entered? at enters
  split at enters
  · rename_i region
    exact nested.push ⟨pattern, child, top, isChild, there, region⟩ enters
  · cases enters

/-- **Using what is offered leads to a nested stack.** -/
theorem matchMove_nested {window : Window} {state : ScanState} {choice : Choice} {move : Move}
    (nested : state.stack.Nested grammar) (offers : grammar.Offers state.stack choice)
    (moved : grammar.matchMove window state choice = .ok move) : move.state.stack.Nested grammar := by
  obtain ⟨pattern, top, offered⟩ := offers
  by_cases again : Again window state choice
  · obtain ⟨style, stop, -, -, rfl⟩ := forcedMove_eq_ok ((matchMove_of_again again).symm.trans moved)
    exact nested
  · obtain ⟨captures, style, stack, kind, emptyAt, uses, rfl⟩ := matchMove_eq_ok again moved
    cases uses with
    | closing => exact nested.outer
    | opening there enters => exact entered?_nested nested top offered there enters
    | whole => exact nested

/-- What was chosen is still offered behind the text in front of it. -/
theorem chosen_nested {window : Window} {state middle : ScanState} {choice : Choice} {move : Move}
    (nested : state.stack.Nested grammar) (chosen : grammar.choose window state = .ok (some choice))
    (sameStack : middle.stack = state.stack)
    (moved : grammar.matchMove window middle choice = .ok move) : move.state.stack.Nested grammar := by
  have offers := choose_offers chosen
  rw [← sameStack] at nested offers
  exact matchMove_nested nested offers moved

end Grammar

/-! ### Scans -/

namespace Scanner

variable {σ : Type} {scanner : Scanner} {sink other : Sink σ} {window : Window} {state : ScanState}
  {collected : σ} {after : Progress σ} {limit : Nat} {text : Text}

/-- A step leads to nested stacks only. -/
theorem Steps.nested {moves : List Move} (nested : state.stack.Nested scanner.grammar)
    (steps : Steps scanner sink window state collected moves after) :
    (∀ move ∈ moves, move.state.stack.Nested scanner.grammar) ∧
      after.state.stack.Nested scanner.grammar := by
  have single : ∀ {move : Move}, move.state.stack.Nested scanner.grammar →
      deliver sink collected move = .ok after →
      (∀ other ∈ [move], other.state.stack.Nested scanner.grammar) ∧
        after.state.stack.Nested scanner.grammar := by
    intro move nested handed
    rw [deliver_state handed]
    exact ⟨List.forall_mem_singleton.mpr nested, nested⟩
  cases steps with
  | none _ moved handed => exact single (Grammar.plainMove_stack moved ▸ nested) handed
  | here found _ moved handed =>
    exact single (Grammar.chosen_nested nested (Grammar.choose_of_search found) rfl moved) handed
  | halted _ _ moved handed _ => exact single (Grammar.plainMove_stack moved ▸ nested) handed
  | ahead found _ moved handed _ movedOver handedToo =>
    have chosen := Grammar.choose_of_search found
    have same := Grammar.plainMove_stack moved
    rw [deliver_state handed] at movedOver
    have nestedToo := Grammar.chosen_nested nested chosen same movedOver
    rw [deliver_state handedToo]
    exact ⟨List.forall_mem_cons.mpr ⟨same ▸ nested, List.forall_mem_singleton.mpr nestedToo⟩, nestedToo⟩

theorem Searched.nested {steps : List (List Move)} (nested : state.stack.Nested scanner.grammar)
    (searched : Searched scanner sink window limit state collected steps after) :
    (∀ move ∈ steps.flatten, move.state.stack.Nested scanner.grammar) ∧
      after.state.stack.Nested scanner.grammar := by
  induction searched with
  | ended => exact ⟨fun _ member => (nomatch member), nested⟩
  | last _ steps _ =>
    rw [List.flatten_singleton]
    exact steps.nested nested
  | step _ steps _ _ _ _ ih =>
    obtain ⟨first, next⟩ := steps.nested nested
    obtain ⟨others, final⟩ := ih next
    rw [List.flatten_cons]
    exact ⟨List.forall_mem_append.mpr ⟨first, others⟩, final⟩

/-- **A scan leads to nested stacks only.** -/
theorem Scanned.nested {steps : List (List Move)} (nested : state.stack.Nested scanner.grammar)
    (scanned : Scanned scanner text sink limit state collected steps after) :
    (∀ move ∈ steps.flatten, move.state.stack.Nested scanner.grammar) ∧
      after.state.stack.Nested scanner.grammar := by
  induction scanned with
  | ended => exact ⟨fun _ member => (nomatch member), nested⟩
  | halted _ _ _ searched _ => exact searched.nested nested
  | window _ _ _ searched _ _ _ ih =>
    obtain ⟨first, next⟩ := searched.nested nested
    obtain ⟨others, final⟩ := ih next
    rw [List.flatten_append]
    exact ⟨List.forall_mem_append.mpr ⟨first, others⟩, final⟩

/-! ### What a sink is shown -/

/-- A scan from a state shows a sink only stacks of some kind: what the sink would make of others makes no
difference. -/
def ShowsOnly (scanner : Scanner) (text : Text) (shown : PatternStack → Prop) (state : ScanState) :
    Prop :=
  ∀ (σ : Type) (sink other : Sink σ) (limit : Nat) (collected : σ),
    (∀ gathered token state, shown state.stack →
      sink gathered token state = other gathered token state) →
    scanner.run text sink limit state collected = scanner.run text other limit state collected

/-- Two scans from a nested stack do the same if their sinks make the same of nested stacks. -/
theorem beside_nested (same : ∀ gathered token (state : ScanState),
    state.stack.Nested scanner.grammar → sink gathered token state = other gathered token state) :
    sink.Beside scanner.grammar (PatternStack.Nested scanner.grammar) other
      (fun collected gathered part partToo => collected = gathered → part = partToo ∧
        ∀ progress, part = .ok progress → progress.state.stack.Nested scanner.grammar) where
  leads := Grammar.chosen_nested
  rest := by
    rintro collected - state nested rfl
    refine ⟨rfl, fun progress went => ?_⟩
    cases went
    exact nested
  stuck := by
    rintro collected - fault rfl
    refine ⟨rfl, fun progress went => ?_⟩
    cases went
  token := by
    rintro collected - token state nested rfl
    refine ⟨?_, fun progress handed => deliver_state handed ▸ nested⟩
    simp only [deliver, same collected token state nested]
  bind := by
    intro collected gathered first firstToo second secondToo related halts haltsToo rest equal
    obtain ⟨rfl, reached⟩ := related equal
    cases first with
    | error fault =>
      refine ⟨rfl, fun progress went => ?_⟩
      cases went
    | ok progress =>
      have nested := reached progress rfl
      rcases progress with ⟨after, state, flow⟩
      cases flow with
      | proceed => exact rest after after state rfl nested rfl
      | halt =>
        rw [Fault.ok_bind, Fault.ok_bind, halts, haltsToo]
        refine ⟨rfl, fun progress went => ?_⟩
        cases went
        exact nested

/-- **A scan that begins in a nested stack shows no other stacks to any sink.** -/
theorem showsOnly_nested (nested : state.stack.Nested scanner.grammar) (text : Text) :
    scanner.ShowsOnly text (PatternStack.Nested scanner.grammar) state := by
  intro σ sink other limit collected same
  unfold run
  rw [((beside_nested same).scanTo nested text _ collected collected rfl).1]

/-- What a sink keeps as long as it is shown nested stacks is true after a scan, which ends in a nested
stack, too. -/
theorem run_keeps (invariant : σ → Prop)
    (keeps : ∀ {gathered token state next flow}, invariant gathered →
      state.stack.Nested scanner.grammar → sink gathered token state = .ok (next, flow) →
      invariant next)
    (nested : state.stack.Nested scanner.grammar) (holds : invariant collected) {gathered : σ}
    {final : ScanState} {ending : ScanEnd}
    (went : scanner.run text sink limit state collected = .ok (gathered, final, ending)) :
    invariant gathered ∧ final.stack.Nested scanner.grammar := by
  unfold run at went
  obtain ⟨⟨outcome, stop, flow⟩, scans, done⟩ := Fault.bind_eq_ok.mp went
  cases done
  obtain ⟨steps, scanned⟩ := scanTo_eq_ok_iff.mp scans
  obtain ⟨shown, last⟩ := scanned.nested nested
  refine ⟨scanned.taken.keeps (fun report member gathered next flow holds taken => ?_) holds, last⟩
  obtain ⟨move, made, reported⟩ := List.mem_filterMap.mp member
  obtain ⟨token, -, rfl⟩ := Option.map_eq_some_iff.mp reported
  exact keeps holds (shown move made) taken

end Scanner

end Highlight
