/-
**The machine that scans a text without windows.**

At each position it asks the regexes about the whole text. Where none matches it gets on by a
character, which gets the style of the region around it; where one does it uses the match. A match of
no bytes is used once at a position:

* `Grammar.hop`: one hop of the machine, `Grammar.hop_spec`: it can always be made and leads on;
* `Grammar.Hops`: one hop from a spot to another, with the kind of step that it is;
* `Grammar.Walk`: any number of hops, with the styles of the bytes they lead over;
* `Grammar.Walk.meet`: of two walks from the same spot one goes on where the other ends;
* `Grammar.exists_walk_to_end`: a walk to the end of the text;
* `Grammar.Lands`: a spot with the kind of the step that leads there, `Grammar.Lands.unique`.
-/

import Highlight.Proofs.Scan.Choice
import Highlight.Scan.Move

namespace Highlight

/-! ### Styles of pieces -/

namespace StyledSpan

/-- The style of a byte under a pile of pieces, the last of which lies on top. -/
def styleAt (pieces : List StyledSpan) (style : StyleId) (position : Nat) : StyleId :=
  pieces.foldl (fun below piece =>
    if piece.start ≤ position ∧ position < piece.stop then piece.style else below) style

/-- The styles of the bytes `[start, stop)` under a pile of pieces. -/
def styles (pieces : List StyledSpan) (start stop : Nat) (style : StyleId) : List StyleId :=
  (List.range' start (stop - start)).map (styleAt pieces style)

@[simp]
theorem length_styles (pieces : List StyledSpan) (start stop : Nat) (style : StyleId) :
    (styles pieces start stop style).length = stop - start := by
  simp [styles]

end StyledSpan

/-- The styles of the bytes of a token. -/
def Token.styles (token : Token) : List StyleId :=
  StyledSpan.styles token.captures token.start token.stop token.style

/-- The styles of the bytes of a match, its groups being styled on their own. -/
def Regex.Match.styles (found : Match) (style : StyleId) (captures : List (Option StyleId)) :
    List StyleId :=
  StyledSpan.styles (found.captureSpans captures) found.start found.stop style

/-! ### Stacks of patterns that are there -/

namespace PatternStack

variable {grammar : Grammar} {stack : PatternStack}

/-- All patterns of a stack are patterns of the grammar. -/
def Known (grammar : Grammar) (stack : PatternStack) : Prop :=
  ∀ frame ∈ stack.regions, ∃ pattern, grammar.pattern frame.pattern = .ok pattern

theorem known_root (grammar : Grammar) : Known grammar root := by
  intro frame member
  cases member

theorem Known.outer (known : stack.Known grammar) : stack.outer.Known grammar :=
  fun frame member => known frame (List.mem_of_mem_tail member)

theorem Known.push (known : stack.Known grammar) {frame : Frame} {pattern : Pattern}
    (there : grammar.pattern frame.pattern = .ok pattern) {pushed : PatternStack}
    (fits : stack.push frame = some pushed) : pushed.Known grammar := by
  unfold PatternStack.push at fits
  split at fits
  · cases fits
  · cases fits
    intro other member
    rcases List.mem_cons.mp member with rfl | below
    · exact ⟨pattern, there⟩
    · exact known other below

theorem exists_root (wellFormed : grammar.WellFormed) :
    ∃ pattern, grammar.pattern rootFrame.pattern = .ok pattern := by
  obtain ⟨pattern, there⟩ := wellFormed.root
  exact ⟨pattern, Grammar.pattern_eq_ok_iff.mpr there⟩

theorem Known.top (known : stack.Known grammar) (wellFormed : grammar.WellFormed) :
    ∃ pattern, grammar.pattern stack.top.pattern = .ok pattern := by
  unfold PatternStack.top
  cases regions : stack.regions with
  | nil => exact exists_root wellFormed
  | cons frame outer => exact known frame (by rw [regions]; exact List.mem_cons_self)

theorem exists_firstStyle (frames : List Frame)
    (known : ∀ frame ∈ frames, ∃ pattern, grammar.pattern frame.pattern = .ok pattern) :
    ∃ style, firstStyle grammar frames = .ok style := by
  induction frames with
  | nil => exact ⟨defaultStyle, rfl⟩
  | cons frame rest ih =>
    obtain ⟨pattern, there⟩ := known frame List.mem_cons_self
    obtain ⟨outer, rest⟩ := ih fun other member => known other (List.mem_cons_of_mem _ member)
    cases styled : pattern.style with
    | some style =>
      refine ⟨style, ?_⟩
      rw [firstStyle, Fault.bind_eq_ok]
      refine ⟨pattern, there, ?_⟩
      rw [styled]
      rfl
    | none =>
      refine ⟨outer, ?_⟩
      rw [firstStyle, Fault.bind_eq_ok]
      refine ⟨pattern, there, ?_⟩
      rw [styled]
      exact rest

/-- What no pattern matches has a style. -/
theorem Known.style (known : stack.Known grammar) (wellFormed : grammar.WellFormed) :
    ∃ style, stack.style grammar = .ok style := by
  apply exists_firstStyle
  intro frame member
  rcases List.mem_append.mp member with region | root
  · exact known frame region
  · rw [List.mem_singleton.mp root]
    exact exists_root wellFormed

end PatternStack

/-! ### Hops -/

/-- Where the machine is. -/
structure Spot where
  position : Nat
  stack : PatternStack
  /-- Whether a match of no bytes has been used here. -/
  used : Bool

namespace Spot

/-- The spot at the start of a text. -/
def initial : Spot := ⟨0, .root, false⟩

/-- A spot between characters whose stack belongs to the grammar. -/
structure Good (grammar : Grammar) (text : Text) (spot : Spot) : Prop where
  boundary : text.isBoundary spot.position = true
  known : spot.stack.Known grammar

theorem good_initial (grammar : Grammar) (text : Text) : initial.Good grammar text :=
  ⟨Text.isBoundary_zero text, PatternStack.known_root grammar⟩

theorem Good.position_le {grammar : Grammar} {text : Text} {spot : Spot}
    (good : spot.Good grammar text) : spot.position ≤ text.size :=
  Text.le_size_of_isBoundary good.boundary

/-- An upper bound of the hops to the end of a text. -/
def budget (text : Text) (spot : Spot) : Nat :=
  2 * (text.size - spot.position) + if spot.used then 0 else 1

end Spot

namespace Grammar

variable {grammar : Grammar} {text : Text}

/-- Gets on by a character. -/
def pass (grammar : Grammar) (text : Text) (spot : Spot) :
    Except Fault (List StyleId × Spot) := do
  let style ← spot.stack.style grammar
  let stop := text.next spot.position
  return (List.replicate (stop - spot.position) style, ⟨stop, spot.stack, false⟩)

/-- Uses a match, which starts where the machine is: one that ends the region, or the opening match of
a child. A child that is a region is entered, unless the stack is full. -/
def use (grammar : Grammar) (text : Text) (spot : Spot) :
    Choice → Except Fault (List StyleId × Spot)
  | .closing found => do
    let style ← spot.stack.style grammar
    let region ← grammar.pattern spot.stack.top.pattern
    return (found.styles style region.closingCaptures,
      ⟨found.stop, spot.stack.outer, found.start = found.stop⟩)
  | .child id found => do
    let child ← grammar.pattern id
    match entered? (.whole text) spot.stack child id found with
    | some stack =>
      let style ← stack.style grammar
      return (found.styles style child.openingCaptures,
        ⟨found.stop, stack, found.start = found.stop⟩)
    | none =>
      let style ← grammar.matchStyle spot.stack child
      return (found.styles style child.openingCaptures,
        ⟨found.stop, spot.stack, found.start = found.stop⟩)

/-- The styles of the bytes the machine gets over next, and where it is then. -/
def hop (grammar : Grammar) (text : Text) (spot : Spot) :
    Except Fault (List StyleId × Spot) := do
  let frame := spot.stack.top
  let pattern ← grammar.pattern frame.pattern
  match grammar.choiceAt pattern frame.pushed text spot.position with
  | none => grammar.pass text spot
  | some choice =>
    if choice.found.start = choice.found.stop ∧ spot.used then grammar.pass text spot
    else grammar.use text spot choice

/-- The kind of step that using a match is. -/
def kindOf (grammar : Grammar) (text : Text) (spot : Spot) : Choice → Except Fault BreakKind
  | .closing _ => return .closing
  | .child id found => do
    let child ← grammar.pattern id
    match entered? (.whole text) spot.stack child id found with
    | some _ => return .opening
    | none => return .inner

/-- The kind of step that the machine makes next. -/
def kindAt (grammar : Grammar) (text : Text) (spot : Spot) : Except Fault BreakKind := do
  let frame := spot.stack.top
  let pattern ← grammar.pattern frame.pattern
  match grammar.choiceAt pattern frame.pushed text spot.position with
  | none => return .inner
  | some choice =>
    if choice.found.start = choice.found.stop ∧ spot.used then return .inner
    else grammar.kindOf text spot choice

/-- The machine hops from one spot to another, which is a step of some kind. -/
structure Hops (grammar : Grammar) (text : Text) (spot : Spot) (kind : BreakKind) (next : Spot) :
    Prop where
  inside : spot.position < text.size
  kind : grammar.kindAt text spot = .ok kind
  hop : ∃ styles, grammar.hop text spot = .ok (styles, next)

theorem hop_eq {spot : Spot} {pattern : Pattern}
    (known : grammar.pattern spot.stack.top.pattern = .ok pattern) :
    grammar.hop text spot =
      match grammar.choiceAt pattern spot.stack.top.pushed text spot.position with
      | none => grammar.pass text spot
      | some choice =>
        if choice.found.start = choice.found.stop ∧ spot.used then grammar.pass text spot
        else grammar.use text spot choice := by
  unfold hop
  simp only [known]
  rfl

theorem hop_of_none {spot : Spot} {pattern : Pattern}
    (known : grammar.pattern spot.stack.top.pattern = .ok pattern)
    (here : grammar.choiceAt pattern spot.stack.top.pushed text spot.position = none) :
    grammar.hop text spot = grammar.pass text spot := by
  rw [hop_eq known, here]

theorem hop_of_again {spot : Spot} {pattern : Pattern} {choice : Choice}
    (known : grammar.pattern spot.stack.top.pattern = .ok pattern)
    (here : grammar.choiceAt pattern spot.stack.top.pushed text spot.position = some choice)
    (again : choice.found.start = choice.found.stop ∧ spot.used = true) :
    grammar.hop text spot = grammar.pass text spot := by
  rw [hop_eq known, here]
  exact if_pos again

theorem hop_of_fresh {spot : Spot} {pattern : Pattern} {choice : Choice}
    (known : grammar.pattern spot.stack.top.pattern = .ok pattern)
    (here : grammar.choiceAt pattern spot.stack.top.pushed text spot.position = some choice)
    (fresh : ¬ (choice.found.start = choice.found.stop ∧ spot.used = true)) :
    grammar.hop text spot = grammar.use text spot choice := by
  rw [hop_eq known, here]
  exact if_neg fresh

theorem kindAt_eq {spot : Spot} {pattern : Pattern}
    (known : grammar.pattern spot.stack.top.pattern = .ok pattern) :
    grammar.kindAt text spot =
      match grammar.choiceAt pattern spot.stack.top.pushed text spot.position with
      | none => .ok .inner
      | some choice =>
        if choice.found.start = choice.found.stop ∧ spot.used then .ok .inner
        else grammar.kindOf text spot choice := by
  unfold kindAt
  simp only [known]
  rfl

theorem kindAt_of_none {spot : Spot} {pattern : Pattern}
    (known : grammar.pattern spot.stack.top.pattern = .ok pattern)
    (here : grammar.choiceAt pattern spot.stack.top.pushed text spot.position = none) :
    grammar.kindAt text spot = .ok .inner := by
  rw [kindAt_eq known, here]

theorem kindAt_of_again {spot : Spot} {pattern : Pattern} {choice : Choice}
    (known : grammar.pattern spot.stack.top.pattern = .ok pattern)
    (here : grammar.choiceAt pattern spot.stack.top.pushed text spot.position = some choice)
    (again : choice.found.start = choice.found.stop ∧ spot.used = true) :
    grammar.kindAt text spot = .ok .inner := by
  rw [kindAt_eq known, here]
  exact if_pos again

theorem kindAt_of_fresh {spot : Spot} {pattern : Pattern} {choice : Choice}
    (known : grammar.pattern spot.stack.top.pattern = .ok pattern)
    (here : grammar.choiceAt pattern spot.stack.top.pushed text spot.position = some choice)
    (fresh : ¬ (choice.found.start = choice.found.stop ∧ spot.used = true)) :
    grammar.kindAt text spot = grammar.kindOf text spot choice := by
  rw [kindAt_eq known, here]
  exact if_neg fresh

/-- What a hop leads to. -/
structure Leads (grammar : Grammar) (text : Text) (spot : Spot) (styles : List StyleId)
    (next : Spot) : Prop where
  good : next.Good grammar text
  length : spot.position + styles.length = next.position
  budget_lt : next.budget text < spot.budget text

theorem pass_spec (wellFormed : grammar.WellFormed) {spot : Spot} (good : spot.Good grammar text)
    (inside : spot.position < text.size) :
    ∃ styles next, grammar.pass text spot = .ok (styles, next) ∧
      grammar.Leads text spot styles next := by
  obtain ⟨style, styled⟩ := good.known.style wellFormed
  have further := text.lt_next spot.position
  have boundary := Text.isBoundary_next inside
  have within := Text.le_size_of_isBoundary boundary
  refine ⟨List.replicate (text.next spot.position - spot.position) style,
    ⟨text.next spot.position, spot.stack, false⟩, ?_, ⟨boundary, good.known⟩, ?_, ?_⟩
  · unfold pass
    rw [Fault.bind_eq_ok]
    exact ⟨style, styled, rfl⟩
  · rw [List.length_replicate]
    exact Nat.add_sub_of_le further.le
  · unfold Spot.budget
    simp only [Bool.false_eq_true, if_false]
    omega

theorem exists_matchStyle (wellFormed : grammar.WellFormed) {stack : PatternStack}
    (known : stack.Known grammar) (pattern : Pattern) :
    ∃ style, grammar.matchStyle stack pattern = .ok style := by
  unfold matchStyle
  split
  · exact ⟨_, rfl⟩
  · exact known.style wellFormed

/-- The stack that entering a region leads to belongs to the grammar. -/
theorem known_of_entered {window : Window} {stack pushed : PatternStack} {child : Pattern}
    {id : PatternId} {found : Regex.Match} (known : stack.Known grammar)
    (there : grammar.pattern id = .ok child)
    (enters : entered? window stack child id found = some pushed) : pushed.Known grammar := by
  unfold entered? at enters
  split at enters
  · exact known.push there enters
  · cases enters

/-- Wherever a match is used, the machine is behind it then. -/
theorem leads_of_near {spot : Spot} {found : Regex.Match} {stack : PatternStack}
    (near : found.Near text grammar.maxExtend spot.position) (known : stack.Known grammar)
    (fresh : ¬ (found.start = found.stop ∧ spot.used = true)) (style : StyleId)
    (captures : List (Option StyleId)) :
    grammar.Leads text spot (found.styles style captures)
      ⟨found.stop, stack, found.start = found.stop⟩ := by
  have start := near.start
  have ordered := near.ordered
  have within := Text.le_size_of_isBoundary near.stops
  refine ⟨⟨near.stops, known⟩, ?_, ?_⟩
  · show spot.position + (found.styles style captures).length = found.stop
    unfold Regex.Match.styles
    rw [StyledSpan.length_styles]
    omega
  · unfold Spot.budget
    simp only [decide_eq_true_eq]
    by_cases empty : found.start = found.stop
    · have unused : ¬ spot.used = true := fun used => fresh ⟨empty, used⟩
      rw [if_pos empty, if_neg unused]
      omega
    · rw [if_neg empty]
      omega

/-- Using what has been found for the first time: the styles of the groups, the style of the rest, and
the stack that it leads to. -/
inductive Uses (grammar : Grammar) (window : Window) (stack : PatternStack) :
    Choice → List (Option StyleId) → StyleId → PatternStack → Prop where
  | closing {found : Regex.Match} {top : Pattern} {style : StyleId}
      (there : grammar.pattern stack.top.pattern = .ok top)
      (styled : stack.style grammar = .ok style) :
      Uses grammar window stack (.closing found) top.closingCaptures style stack.outer
  | opening {id : PatternId} {found : Regex.Match} {child : Pattern} {pushed : PatternStack}
      {style : StyleId} (there : grammar.pattern id = .ok child)
      (enters : entered? window stack child id found = some pushed)
      (styled : pushed.style grammar = .ok style) :
      Uses grammar window stack (.child id found) child.openingCaptures style pushed
  | whole {id : PatternId} {found : Regex.Match} {child : Pattern} {style : StyleId}
      (there : grammar.pattern id = .ok child)
      (stays : entered? window stack child id found = none)
      (styled : grammar.matchStyle stack child = .ok style) :
      Uses grammar window stack (.child id found) child.openingCaptures style stack

/-- What has been found can be used, which leads to a stack that belongs to the grammar. -/
theorem exists_uses (wellFormed : grammar.WellFormed) (window : Window) {stack : PatternStack}
    (known : stack.Known grammar) {choice : Choice}
    (there : ∀ id found, choice = .child id found → ∃ child, grammar.pattern id = .ok child) :
    ∃ captures style after, grammar.Uses window stack choice captures style after ∧
      after.Known grammar := by
  cases choice with
  | closing found =>
    obtain ⟨top, there⟩ := known.top wellFormed
    obtain ⟨style, styled⟩ := known.style wellFormed
    exact ⟨_, style, _, .closing there styled, known.outer⟩
  | child id found =>
    obtain ⟨child, there⟩ := there id found rfl
    cases enters : entered? window stack child id found with
    | some pushed =>
      have pushedKnown := known_of_entered known there enters
      obtain ⟨style, styled⟩ := pushedKnown.style wellFormed
      exact ⟨_, style, pushed, .opening there enters styled, pushedKnown⟩
    | none =>
      obtain ⟨style, styled⟩ := exists_matchStyle wellFormed known child
      exact ⟨_, style, stack, .whole there enters styled, known⟩

/-- The machine is behind the match then, in the stack that using it leads to. -/
theorem use_eq_ok_iff {spot next : Spot} {styles : List StyleId} {choice : Choice} :
    grammar.use text spot choice = .ok (styles, next) ↔
      ∃ captures style stack, grammar.Uses (.whole text) spot.stack choice captures style stack ∧
        styles = choice.found.styles style captures ∧
        next = ⟨choice.found.stop, stack, choice.found.start = choice.found.stop⟩ := by
  constructor
  · intro went
    cases choice with
    | closing found =>
      obtain ⟨style, styled, went⟩ := Fault.bind_eq_ok.mp went
      obtain ⟨top, there, went⟩ := Fault.bind_eq_ok.mp went
      cases went
      exact ⟨_, style, _, .closing there styled, rfl, rfl⟩
    | child id found =>
      obtain ⟨child, there, went⟩ := Fault.bind_eq_ok.mp went
      cases enters : entered? (.whole text) spot.stack child id found with
      | some pushed =>
        rw [enters] at went
        obtain ⟨style, styled, went⟩ := Fault.bind_eq_ok.mp went
        cases went
        exact ⟨_, style, pushed, .opening there enters styled, rfl, rfl⟩
      | none =>
        rw [enters] at went
        obtain ⟨style, styled, went⟩ := Fault.bind_eq_ok.mp went
        cases went
        exact ⟨_, style, _, .whole there enters styled, rfl, rfl⟩
  · rintro ⟨captures, style, stack, uses, rfl, rfl⟩
    unfold use
    cases uses with
    | closing there styled => simp only [styled, there, Fault.ok_bind]; rfl
    | opening there enters styled => simp only [there, enters, styled, Fault.ok_bind]; rfl
    | whole there stays styled => simp only [there, stays, styled, Fault.ok_bind]; rfl

theorem use_spec (wellFormed : grammar.WellFormed) {spot : Spot} (good : spot.Good grammar text)
    {choice : Choice} (near : choice.found.Near text grammar.maxExtend spot.position)
    (there : ∀ id found, choice = .child id found → ∃ child, grammar.pattern id = .ok child)
    (fresh : ¬ (choice.found.start = choice.found.stop ∧ spot.used = true)) :
    ∃ styles next, grammar.use text spot choice = .ok (styles, next) ∧
      grammar.Leads text spot styles next := by
  obtain ⟨captures, style, stack, uses, known⟩ :=
    exists_uses wellFormed (.whole text) good.known there
  exact ⟨_, _, use_eq_ok_iff.mpr ⟨captures, style, stack, uses, rfl, rfl⟩,
    leads_of_near near known fresh style captures⟩

/-- **The machine always gets on until the text ends.** -/
theorem hop_spec (wellFormed : grammar.WellFormed) (isLocal : grammar.Local) (held : text.Held)
    {spot : Spot} (good : spot.Good grammar text) (inside : spot.position < text.size) :
    ∃ styles next, grammar.hop text spot = .ok (styles, next) ∧
      grammar.Leads text spot styles next := by
  obtain ⟨pattern, known⟩ := good.known.top wellFormed
  cases here : grammar.choiceAt pattern spot.stack.top.pushed text spot.position with
  | none =>
    rw [hop_of_none known here]
    exact pass_spec wellFormed good inside
  | some choice =>
    by_cases again : choice.found.start = choice.found.stop ∧ spot.used = true
    · rw [hop_of_again known here again]
      exact pass_spec wellFormed good inside
    · have near := near_of_choiceAt isLocal held (mem_of_pattern known) inside good.boundary here
      rw [hop_of_fresh known here again]
      exact use_spec wellFormed good near
        (fun id found same => exists_of_choiceAt_child (same ▸ here)) again

/-! ### Walks -/

/-- The machine gets from one spot to another and over bytes with these styles. -/
inductive Walk (grammar : Grammar) (text : Text) : Spot → List StyleId → Spot → Prop where
  | refl (spot : Spot) : Walk grammar text spot [] spot
  | head {spot next final : Spot} {styles rest : List StyleId}
      (inside : spot.position < text.size) (here : grammar.hop text spot = .ok (styles, next))
      (walk : Walk grammar text next rest final) : Walk grammar text spot (styles ++ rest) final

namespace Walk

variable {spot middle final : Spot} {styles rest : List StyleId}

theorem single (inside : spot.position < text.size)
    (here : grammar.hop text spot = .ok (styles, final)) : grammar.Walk text spot styles final := by
  have walk := Walk.head inside here (.refl final)
  rwa [List.append_nil] at walk

theorem trans (front : grammar.Walk text spot styles middle)
    (back : grammar.Walk text middle rest final) : grammar.Walk text spot (styles ++ rest) final := by
  induction front with
  | refl spot => exact back
  | head inside here walk ih =>
    rw [List.append_assoc]
    exact .head inside here (ih back)

/-- Two walks from the same spot follow the same hops, as far as both go. -/
theorem meet {other : Spot} {others : List StyleId} (walk : grammar.Walk text spot styles final)
    (second : grammar.Walk text spot others other) :
    (∃ rest, grammar.Walk text final rest other ∧ others = styles ++ rest) ∨
      ∃ rest, grammar.Walk text other rest final ∧ styles = others ++ rest := by
  induction walk generalizing others with
  | refl spot => exact Or.inl ⟨others, second, rfl⟩
  | head inside here walk ih =>
    cases second with
    | refl => exact Or.inr ⟨_, .head inside here walk, rfl⟩
    | head inside' here' walk' =>
      cases here.symm.trans here'
      rcases ih walk' with ⟨rest, further, rfl⟩ | ⟨rest, further, rfl⟩
      · exact Or.inl ⟨rest, further, (List.append_assoc _ _ _).symm⟩
      · exact Or.inr ⟨rest, further, (List.append_assoc _ _ _).symm⟩

/-- Where the text ends the machine stays. -/
theorem eq_of_end (walk : grammar.Walk text spot styles final) (ended : text.size ≤ spot.position) :
    styles = [] ∧ final = spot := by
  cases walk with
  | refl => exact ⟨rfl, rfl⟩
  | head inside => exact absurd ended (not_le.mpr inside)

/-- **There is one walk to the end of the text at most.** -/
theorem unique {other : Spot} {others : List StyleId} (walk : grammar.Walk text spot styles final)
    (second : grammar.Walk text spot others other) (ended : text.size ≤ final.position)
    (endedToo : text.size ≤ other.position) : others = styles ∧ other = final := by
  rcases walk.meet second with ⟨rest, further, rfl⟩ | ⟨rest, further, rfl⟩
  · obtain ⟨rfl, rfl⟩ := further.eq_of_end ended
    exact ⟨List.append_nil _, rfl⟩
  · obtain ⟨rfl, rfl⟩ := further.eq_of_end endedToo
    exact ⟨(List.append_nil _).symm, rfl⟩

end Walk

section Lawful

variable (wellFormed : grammar.WellFormed) (isLocal : grammar.Local) (held : text.Held)
include wellFormed isLocal held

/-- A walk leads to a spot that is good again, and over as many bytes as it has styles. -/
theorem Walk.leads {spot final : Spot} {styles : List StyleId}
    (walk : grammar.Walk text spot styles final) (good : spot.Good grammar text) :
    final.Good grammar text ∧ spot.position + styles.length = final.position := by
  induction walk with
  | refl spot => exact ⟨good, rfl⟩
  | head inside here walk ih =>
    obtain ⟨styles, next, there, leads⟩ := hop_spec wellFormed isLocal held good inside
    cases here.symm.trans there
    obtain ⟨goodFinal, length⟩ := ih leads.good
    refine ⟨goodFinal, ?_⟩
    have := leads.length
    rw [List.length_append]
    omega

/-- A walk from the start of the text has a style for every byte it gets over. -/
theorem Walk.length_initial {final : Spot} {styles : List StyleId}
    (walk : grammar.Walk text .initial styles final) : styles.length = final.position :=
  (Nat.zero_add _).symm.trans (walk.leads wellFormed isLocal held (Spot.good_initial grammar text)).2

/-- **The machine gets to the end of the text.** -/
theorem exists_walk_to_end {spot : Spot} (good : spot.Good grammar text) :
    ∃ styles final, grammar.Walk text spot styles final ∧ final.Good grammar text ∧
      final.position = text.size := by
  induction left : spot.budget text using Nat.strong_induction_on generalizing spot with
  | _ left ih =>
    rcases good.position_le.lt_or_eq with inside | ended
    · obtain ⟨styles, next, here, leads⟩ := hop_spec wellFormed isLocal held good inside
      obtain ⟨rest, final, walk, goodFinal, ended⟩ :=
        ih (next.budget text) (left ▸ leads.budget_lt) leads.good rfl
      exact ⟨styles ++ rest, final, .head inside here walk, goodFinal, ended⟩
    · exact ⟨[], spot, .refl spot, good, ended⟩

end Lawful

/-! ### Where hops lead -/

/-- The machine gets from a spot to another by a hop that begins before it and is a step of some
kind. -/
def Lands (grammar : Grammar) (text : Text) (spot : Spot) (kind : BreakKind) (next : Spot) : Prop :=
  ∃ styles before, grammar.Walk text spot styles before ∧ before.position < next.position ∧
    grammar.Hops text before kind next

section Lands

variable {spot middle next other : Spot} {kind kindToo : BreakKind} {styles others : List StyleId}

theorem Hops.walk (hops : grammar.Hops text spot kind next) :
    ∃ styles, grammar.Walk text spot styles next := by
  obtain ⟨styles, here⟩ := hops.hop
  exact ⟨styles, .single hops.inside here⟩

theorem Hops.lands (hops : grammar.Hops text spot kind next) (further : spot.position < next.position) :
    grammar.Lands text spot kind next :=
  ⟨[], spot, .refl spot, further, hops⟩

theorem Lands.walk (lands : grammar.Lands text spot kind next) :
    ∃ styles, grammar.Walk text spot styles next := by
  obtain ⟨styles, before, walk, -, hops⟩ := lands
  obtain ⟨rest, further⟩ := hops.walk
  exact ⟨styles ++ rest, walk.trans further⟩

/-- Where the machine lands later on, it lands from the start. -/
theorem Lands.after (lands : grammar.Lands text middle kind next)
    (walk : grammar.Walk text spot styles middle) : grammar.Lands text spot kind next := by
  obtain ⟨rest, before, further, ordered, hops⟩ := lands
  exact ⟨styles ++ rest, before, walk.trans further, ordered, hops⟩

/-- From a spot there is one hop only. -/
theorem Hops.unique (hops : grammar.Hops text spot kind next)
    (hopsToo : grammar.Hops text spot kindToo other) : kind = kindToo ∧ next = other := by
  obtain ⟨styles, here⟩ := hops.hop
  obtain ⟨others, hereToo⟩ := hopsToo.hop
  cases here.symm.trans hereToo
  exact ⟨Except.ok.inj (hops.kind.symm.trans hopsToo.kind), rfl⟩

variable (wellFormed : grammar.WellFormed) (isLocal : grammar.Local) (held : text.Held)
include wellFormed isLocal held

/-- A hop ends before any later one begins. -/
theorem Hops.le_of_walk (hops : grammar.Hops text spot kind next) (good : spot.Good grammar text)
    (walk : grammar.Walk text spot others other) : other = spot ∨ next.position ≤ other.position := by
  obtain ⟨styles, here⟩ := hops.hop
  cases walk with
  | refl => exact Or.inl rfl
  | head inside hereToo walk =>
    obtain ⟨styles, found, there, leads⟩ := hop_spec wellFormed isLocal held good inside
    cases here.symm.trans hereToo
    cases here.symm.trans there
    have length := (walk.leads wellFormed isLocal held leads.good).2
    exact Or.inr (by omega)

/-- **Two hops of the machine are the same, or one of them ends before the other begins.** -/
theorem Hops.eq_or_le {before final : Spot} (good : spot.Good grammar text)
    (walk : grammar.Walk text spot styles before) (hops : grammar.Hops text before kind next)
    (walkToo : grammar.Walk text spot others other) (hopsToo : grammar.Hops text other kindToo final) :
    kind = kindToo ∧ next = final ∨ next.position ≤ other.position ∨
      final.position ≤ before.position := by
  have goodBefore := (walk.leads wellFormed isLocal held good).1
  have goodOther := (walkToo.leads wellFormed isLocal held good).1
  rcases walk.meet walkToo with ⟨rest, further, -⟩ | ⟨rest, further, -⟩
  · rcases hops.le_of_walk wellFormed isLocal held goodBefore further with rfl | ended
    · exact Or.inl (hops.unique hopsToo)
    · exact Or.inr (Or.inl ended)
  · rcases hopsToo.le_of_walk wellFormed isLocal held goodOther further with rfl | ended
    · exact Or.inl (hops.unique hopsToo)
    · exact Or.inr (Or.inr ended)

/-- The machine lands at a position once. -/
theorem Lands.unique (good : spot.Good grammar text) (lands : grammar.Lands text spot kind next)
    (landsToo : grammar.Lands text spot kindToo other) (same : next.position = other.position) :
    kind = kindToo ∧ next = other := by
  obtain ⟨styles, before, walk, ordered, hops⟩ := lands
  obtain ⟨others, beforeToo, walkToo, orderedToo, hopsToo⟩ := landsToo
  rcases hops.eq_or_le wellFormed isLocal held good walk walkToo hopsToo with same | ended | ended
  · exact same
  · omega
  · omega

/-- The machine lands nowhere inside of a hop. -/
theorem Lands.le_of_hops {final : Spot} (good : spot.Good grammar text)
    (lands : grammar.Lands text spot kind next) (walk : grammar.Walk text spot others other)
    (hops : grammar.Hops text other kindToo final) :
    next.position ≤ other.position ∨ final.position ≤ next.position := by
  obtain ⟨styles, before, walkToo, ordered, hopsToo⟩ := lands
  rcases hopsToo.eq_or_le wellFormed isLocal held good walkToo walk hops with
    ⟨-, rfl⟩ | ended | ended
  · exact Or.inr le_rfl
  · exact Or.inl ended
  · exact Or.inr (ended.trans ordered.le)

end Lands

end Grammar

end Highlight
