/-
**The next match is the leftmost one in the text.**

What a scan uses next is looked for in a window, by several searches that stop at each other's
matches. It is what one would find by asking at one position of the text after the other:

* `Grammar.choiceAt`: what a scan uses at a position of the whole text;
* `Text.First`, `Text.outcomes`: what is found first in a range, and all that is found in it;
* `Regex.Matcher.firstFrom_first`, `Regex.Matcher.findAt_first`: the searches find the leftmost
  match;
* `Regex.Matcher.findAt_eq`: a search for a match that is accepted is offered all of them, up to that
  one;
* `Grammar.choose_first`: **so does the scan, whatever the window**;
* `Grammar.choiceAt_moved`: a scan uses the same where two texts look the same.
-/

import Highlight.Proofs.Fault
import Highlight.Proofs.Scan.Locality

namespace Highlight

/-! ### The first of many positions -/

namespace Text

variable {α β : Type}

/-- Nothing is found at any boundary of a range. -/
def Quiet (text : Text) (outcome : Nat → Option α) (start stop : Nat) : Prop :=
  ∀ place, start ≤ place → place < stop → text.isBoundary place = true → outcome place = none

/-- What is found at the first boundary of a range where anything is. -/
inductive First (text : Text) (outcome : Nat → Option α) (start stop : Nat) : Option α → Prop where
  | none (quiet : text.Quiet outcome start stop) : First text outcome start stop none
  | some {place : Nat} {found : α} (behind : start ≤ place) (before : place < stop)
      (boundary : text.isBoundary place = true) (here : outcome place = some found)
      (quiet : text.Quiet outcome start place) : First text outcome start stop (some found)

theorem Quiet.mono {text : Text} {outcome : Nat → Option α} {start stop start' stop' : Nat}
    (quiet : text.Quiet outcome start stop) (later : start ≤ start') (earlier : stop' ≤ stop) :
    text.Quiet outcome start' stop' :=
  fun place behind before => quiet place (later.trans behind) (before.trans_le earlier)

/-- Nothing is found up to the next boundary if there is nothing at this one. -/
theorem Quiet.next {text : Text} {outcome : Nat → Option α} {start : Nat}
    (here : outcome start = Option.none) (inside : start < text.size) :
    text.Quiet outcome start (text.next start) := by
  intro place behind before boundary
  rcases behind.lt_or_eq with after | rfl
  · exact absurd ((isLeast_next text inside).2 ⟨boundary, after⟩) (not_le.mpr before)
  · exact here

theorem Quiet.trans {text : Text} {outcome : Nat → Option α} {start middle stop : Nat}
    (front : text.Quiet outcome start middle) (back : text.Quiet outcome middle stop) :
    text.Quiet outcome start stop := by
  intro place behind before boundary
  rcases lt_or_ge place middle with first | second
  · exact front place behind first boundary
  · exact back place second before boundary

/-- What is first behind a range where nothing is found is first from the start of the range on. -/
theorem First.prepend {text : Text} {outcome : Nat → Option α} {start middle stop : Nat}
    {result : Option α} (quiet : text.Quiet outcome start middle) (ordered : start ≤ middle)
    (rest : text.First outcome middle stop result) : text.First outcome start stop result := by
  cases rest with
  | none further => exact .none (quiet.trans further)
  | some behind before boundary found further =>
    exact .some (ordered.trans behind) before boundary found (quiet.trans further)

theorem First.congr {text : Text} {outcome other : Nat → Option α} {start stop : Nat}
    {result : Option α} (first : text.First outcome start stop result)
    (same : ∀ place, start ≤ place → place < stop → text.isBoundary place = true →
      outcome place = other place) : text.First other start stop result := by
  cases first with
  | none quiet =>
    exact .none fun place behind before boundary =>
      (same place behind before boundary).symm.trans (quiet place behind before boundary)
  | some behind before boundary found quiet =>
    refine .some behind before boundary ((same _ behind before boundary).symm.trans found)
      fun place behind' before' boundary' => ?_
    rw [← same place behind' (before'.trans before) boundary']
    exact quiet place behind' before' boundary'

/-- What is found at the boundaries of a range, from left to right. -/
def outcomes (text : Text) (outcome : Nat → Option α) (start stop : Nat) : List α :=
  ((List.range' start (stop - start)).filter fun place => text.isBoundary place).filterMap outcome

theorem mem_outcomes {text : Text} {outcome : Nat → Option α} {start stop : Nat} {found : α} :
    found ∈ text.outcomes outcome start stop ↔
      ∃ place, start ≤ place ∧ place < stop ∧ text.isBoundary place = true ∧
        outcome place = some found := by
  unfold outcomes
  simp only [List.mem_filterMap, List.mem_filter, List.mem_range'_1]
  constructor
  · rintro ⟨place, ⟨⟨behind, before⟩, boundary⟩, here⟩
    exact ⟨place, behind, by omega, boundary, here⟩
  · rintro ⟨place, behind, before, boundary, here⟩
    exact ⟨place, ⟨⟨behind, by omega⟩, boundary⟩, here⟩

theorem outcomes_append {text : Text} {outcome : Nat → Option α} {start middle stop : Nat}
    (behind : start ≤ middle) (before : middle ≤ stop) :
    text.outcomes outcome start middle ++ text.outcomes outcome middle stop =
      text.outcomes outcome start stop := by
  obtain ⟨front, rfl⟩ := Nat.exists_eq_add_of_le behind
  obtain ⟨back, rfl⟩ := Nat.exists_eq_add_of_le before
  unfold outcomes
  rw [← List.filterMap_append, ← List.filter_append, Nat.add_sub_cancel_left,
    Nat.add_sub_cancel_left, List.range'_append_1, Nat.add_assoc, Nat.add_sub_cancel_left]

theorem outcomes_eq_nil {text : Text} {outcome : Nat → Option α} {start stop : Nat}
    (quiet : text.Quiet outcome start stop) : text.outcomes outcome start stop = [] := by
  refine List.eq_nil_iff_forall_not_mem.mpr fun found member => ?_
  obtain ⟨place, behind, before, boundary, here⟩ := mem_outcomes.mp member
  cases (quiet place behind before boundary).symm.trans here

/-- What is found behind a range where nothing is found is found from the start of the range on. -/
theorem Quiet.outcomes_eq {text : Text} {outcome : Nat → Option α} {start middle stop : Nat}
    (quiet : text.Quiet outcome start middle) (ordered : start ≤ middle) :
    text.outcomes outcome start stop = text.outcomes outcome middle stop := by
  rcases le_total middle stop with before | behind
  · rw [← outcomes_append ordered before, outcomes_eq_nil quiet, List.nil_append]
  · rw [outcomes_eq_nil (quiet.mono le_rfl behind),
      outcomes_eq_nil fun place after before => absurd (behind.trans after) (not_le.mpr before)]

/-- What is found at a boundary comes before what is found from the next one on. -/
theorem outcomes_cons {text : Text} {outcome : Nat → Option α} {place stop : Nat} {found : α}
    (before : place < stop) (within : stop ≤ text.size) (boundary : text.isBoundary place = true)
    (here : outcome place = some found) :
    text.outcomes outcome place stop = found :: text.outcomes outcome (text.next place) stop := by
  have between : text.Quiet outcome (place + 1) (text.next place) := fun other behind before _ => by
    have := (isLeast_next text (by omega)).2 ⟨‹_›, behind⟩
    omega
  rw [← between.outcomes_eq (text.lt_next place), ← outcomes_append (Nat.le_succ place) before]
  unfold outcomes
  rw [Nat.succ_eq_add_one, Nat.add_sub_cancel_left, List.range'_one,
    List.filter_cons_of_pos boundary, List.filterMap_cons_some here]
  rfl

/-- What is found first is the first of all that is found. -/
theorem First.head?_outcomes {text : Text} {outcome : Nat → Option α} {start stop : Nat}
    {result : Option α} (first : text.First outcome start stop result) (within : stop ≤ text.size) :
    (text.outcomes outcome start stop).head? = result := by
  cases first with
  | none quiet => rw [outcomes_eq_nil quiet, List.head?_nil]
  | some behind before boundary here quiet =>
    rw [quiet.outcomes_eq behind, outcomes_cons before within boundary here, List.head?_cons]

/-- What is accepted first is the first that is accepted of all that is found. -/
theorem First.find?_outcomes {text : Text} {outcome : Nat → Option α} {accepts : α → Bool}
    {start stop : Nat} {result : Option α}
    (first : text.First (fun place => (outcome place).filter accepts) start stop result)
    (within : stop ≤ text.size) :
    (text.outcomes outcome start stop).find? accepts = result := by
  rw [← first.head?_outcomes within, ← List.head?_filter]
  unfold outcomes
  rw [List.filter_filterMap]

/-- The first position of a window is that of the text. -/
theorem First.ofWindow {window : Window} {text : Text} {last : Nat} (covers : window.Covers text last)
    {outcome : Nat → Option α} {outside : Nat → Option β} {moved : α → β} {start stop : Nat}
    (inside : window.offset + stop ≤ last)
    (same : ∀ index, start ≤ index → index < stop → window.subject.isBoundary index = true →
      outside (window.offset + index) = (outcome index).map moved)
    {result : Option α} (first : window.subject.First outcome start stop result) :
    text.First outside (window.offset + start) (window.offset + stop) (result.map moved) := by
  have quiets : ∀ bound ≤ stop, window.subject.Quiet outcome start bound →
      text.Quiet outside (window.offset + start) (window.offset + bound) := by
    intro bound within quiet place behind before boundary
    obtain ⟨index, rfl⟩ := Nat.exists_eq_add_of_le ((Nat.le_add_right _ _).trans behind)
    have shown : window.subject.isBoundary index = true :=
      (covers.isBoundary index).mpr ⟨by omega, boundary⟩
    rw [same index (by omega) (by omega) shown, quiet index (by omega) (by omega) shown]
    rfl
  cases first with
  | none quiet => exact .none (quiets stop le_rfl quiet)
  | some behind before boundary found quiet =>
    refine .some (Nat.add_le_add_left behind _) (Nat.add_lt_add_left before _)
      ((covers.isBoundary _).mp boundary).2 ?_ (quiets _ before.le quiet)
    rw [same _ behind before boundary, found]
    rfl

end Text

/-! ### Searches -/

namespace Regex.Matcher

variable {α : Type}

/-- A search goes from one boundary to the next. -/
theorem after_eq_next {subject : Text} (utf8 : subject.IsUtf8) {position : Nat}
    (boundary : subject.isBoundary position = true) (inside : position < subject.size) :
    after subject position = subject.next position := by
  have begins : Text.isContinuation (subject.byteAt position) = false := by
    unfold Text.byteAt
    rw [dif_pos (show position < subject.bytes.size from inside)]
    rcases Text.isBoundary_iff.mp boundary with rfl | last | ⟨byte, here, begins⟩
    · exact utf8.begins (Text.byte?_eq_some_getElem inside)
    · exact absurd last inside.ne
    · rw [Text.byte?_eq_some_getElem inside, Option.some_inj] at here
      exact here ▸ begins
  unfold after
  rw [if_pos inside, begins]
  rfl

/-- A search finds what is at the first boundary where anything is. -/
theorem firstFrom_first {subject : Text} (utf8 : subject.IsUtf8) (attempt : Nat → Option α)
    {position stop : Nat} (boundary : subject.isBoundary position = true)
    (within : stop ≤ subject.size) :
    subject.First attempt position stop (firstFrom subject attempt position stop) := by
  fun_induction firstFrom subject attempt position stop with
  | case1 position before found here =>
    exact .some le_rfl before boundary here fun place behind before => by omega
  | case2 position before here ih =>
    have inside := before.trans_le within
    rw [after_eq_next utf8 boundary inside] at ih ⊢
    exact (ih (Text.isBoundary_next inside)).prepend (.next here inside)
      (subject.lt_next position).le
  | case3 position before =>
    exact .none fun place behind inside => by omega

section Round

variable {matcher : Matcher} {subject : Text} {start stop : Nat} {flags : SearchFlags}
  {accept : Nat → Match → Bool} {offered : List Match} {found : Match}

/-- A search of an empty range ends at once. -/
theorem findAt_of_empty (empty : ¬ start < stop) :
    matcher.findAt subject start stop flags accept offered = .ok ⟨offered.reverse, none⟩ := by
  rw [findAt, if_neg empty]
  rfl

/-- A search ends where there is no further match in the range. -/
theorem findAt_of_none (inText : start ≤ subject.size)
    (beyond : ∀ found ∈ matcher.search subject start stop flags, stop ≤ found.start) :
    matcher.findAt subject start stop flags accept offered = .ok ⟨offered.reverse, none⟩ := by
  by_cases before : start < stop
  · rw [findAt]
    simp only [before, not_lt.mpr inText, if_true, if_false]
    cases result : matcher.search subject start stop flags with
    | none => rfl
    | some found =>
      simp only [beyond found result, if_true]
      rfl
  · exact findAt_of_empty before

/-- A search ends with a match that is accepted. -/
theorem findAt_of_accepted (before : start < stop) (inText : start ≤ subject.size)
    (result : matcher.search subject start stop flags = some found) (near : found.start < stop)
    (accepted : accept offered.length found = true) :
    matcher.findAt subject start stop flags accept offered = .ok ⟨offered.reverse, some found⟩ := by
  rw [findAt]
  simp only [before, not_lt.mpr inText, not_le.mpr near, result, accepted, if_true, if_false]
  rfl

/-- A search goes on behind the character that a match it refuses starts with. -/
theorem findAt_of_refused (before : start < stop) (inText : start ≤ subject.size)
    (result : matcher.search subject start stop flags = some found) (behind : start ≤ found.start)
    (near : found.start < stop) (boundary : subject.isBoundary found.start = true)
    (refused : accept offered.length found = false) :
    matcher.findAt subject start stop flags accept offered =
      matcher.findAt subject (subject.next found.start) stop flags accept (found :: offered) := by
  have further := behind.trans_lt (subject.lt_next found.start)
  rw [findAt]
  simp only [before, not_lt.mpr inText, not_le.mpr near, result, refused, boundary, further, if_true,
    if_false, not_true_eq_false, Bool.false_eq_true]

end Round

section Accepted

variable {matcher : Matcher} {subject : Text} {flags : SearchFlags} {outcome : Nat → Option Match}
  {start stop : Nat} (accepts : Match → Bool) (offered : List Match)

/-- A search for a match that is accepted goes well. It is offered the matches from left to right, up
to the first one that is accepted. -/
theorem findAt_eq (utf8 : subject.IsUtf8) (within : stop ≤ subject.size)
    (boundary : subject.isBoundary start = true)
    (free : ∀ origin place, start ≤ origin → subject.isBoundary origin = true → origin ≤ place →
      place < stop → subject.isBoundary place = true →
      matcher.attempt subject origin place flags = outcome place)
    (starts : ∀ place found, start ≤ place → place < stop → subject.isBoundary place = true →
      outcome place = some found → found.start = place) :
    matcher.findAt subject start stop flags (fun _ found => accepts found) offered =
      .ok ⟨offered.reverse ++ (subject.outcomes outcome start stop).takeWhile (!accepts ·),
        (subject.outcomes outcome start stop).find? accepts⟩ := by
  induction width : stop - start using Nat.strong_induction_on generalizing start offered with
  | _ width ih =>
  have inText : start ≤ subject.size := Text.le_size_of_isBoundary boundary
  have search : subject.First outcome start stop (matcher.search subject start stop flags) :=
    (firstFrom_first utf8 _ boundary within).congr
      fun place behind before here => free start place le_rfl boundary behind before here
  generalize result : matcher.search subject start stop flags = first at search
  cases search with
  | none quiet =>
    rw [Text.outcomes_eq_nil quiet, List.takeWhile_nil, List.append_nil]
    exact findAt_of_none inText fun found member => nomatch result.symm.trans member
  | @some place found behind before atPlace here quiet =>
    have begins := starts place found behind before atPlace here
    subst begins
    have nonempty := behind.trans_lt before
    rw [quiet.outcomes_eq behind, Text.outcomes_cons before within atPlace here]
    cases accepted : accepts found with
    | true =>
      rw [findAt_of_accepted nonempty inText result before accepted,
        List.takeWhile_cons_of_neg (by rw [accepted]; decide), List.append_nil,
        List.find?_cons_of_pos accepted]
    | false =>
      have further := subject.lt_next found.start
      have went := ih (stop - subject.next found.start) (by omega) (found :: offered)
        (Text.isBoundary_next (before.trans_le within))
        (fun origin place' behind' => free origin place' (by omega))
        (fun place' found' behind' => starts place' found' (by omega)) rfl
      rw [List.reverse_cons, List.append_assoc, List.singleton_append] at went
      rw [findAt_of_refused nonempty inText result behind before atPlace accepted, went,
        List.takeWhile_cons_of_pos (by rw [accepted]; rfl),
        List.find?_cons_of_neg (by rw [accepted]; decide)]

/-- A search for a match that is accepted goes well and finds the first one there is. -/
theorem findAt_first (utf8 : subject.IsUtf8) (within : stop ≤ subject.size)
    (boundary : subject.isBoundary start = true)
    (free : ∀ origin place, start ≤ origin → subject.isBoundary origin = true → origin ≤ place →
      place < stop → subject.isBoundary place = true →
      matcher.attempt subject origin place flags = outcome place)
    (starts : ∀ place found, start ≤ place → place < stop → subject.isBoundary place = true →
      outcome place = some found → found.start = place) :
    ∃ offers, matcher.findAt subject start stop flags (fun _ found => accepts found) offered =
        .ok offers ∧
      subject.First (fun place => (outcome place).filter accepts) start stop offers.accepted := by
  have first := firstFrom_first utf8 (fun place => (outcome place).filter accepts) boundary within
  refine ⟨_, findAt_eq accepts offered utf8 within boundary free starts, ?_⟩
  rw [first.find?_outcomes within]
  exact first

end Accepted

end Regex.Matcher

/-! ### What a scan uses at a position -/

namespace Choice

/-- The choice with every position moved by `offset` bytes. -/
def moved (choice : Choice) (offset : Nat) : Choice :=
  match choice with
  | closing found => closing (found.moved offset)
  | child id found => child id (found.moved offset)

@[simp]
theorem found_moved (choice : Choice) (offset : Nat) :
    (choice.moved offset).found = choice.found.moved offset := by
  cases choice <;> rfl

/-- Who wins does not depend on where positions are counted from. -/
theorem between_moved (closingLast : Bool) (ending : Option Regex.Match)
    (start : Option (PatternId × Regex.Match)) (offset : Nat) :
    between closingLast (ending.map (·.moved offset))
        (start.map fun (id, found) => (id, found.moved offset)) =
      (between closingLast ending start).map (·.moved offset) := by
  rcases ending with - | ending <;> rcases start with - | ⟨id, start⟩
  · rfl
  · rfl
  · rfl
  · simp only [Option.map_some, between, Regex.Match.moved, Nat.add_lt_add_iff_right,
      Nat.add_right_cancel_iff]
    split <;> rfl

theorem between_eq_none {closingLast : Bool} {ending : Option Regex.Match}
    {start : Option (PatternId × Regex.Match)} :
    between closingLast ending start = none ↔ ending = none ∧ start = none := by
  rcases ending with - | ending <;> rcases start with - | ⟨id, start⟩ <;>
    simp only [between, reduceCtorEq, and_self, and_false, false_and]
  split <;> simp

section Both

variable {closingLast : Bool} {ending start : Regex.Match} {id : PatternId}

/-- A child that begins earlier wins. -/
theorem between_of_lt (earlier : start.start < ending.start) :
    between closingLast (some ending) (some (id, start)) = some (.child id start) :=
  if_pos (Or.inl earlier)

/-- A closing match that begins earlier wins. -/
theorem between_of_gt (later : ending.start < start.start) :
    between closingLast (some ending) (some (id, start)) = some (.closing ending) :=
  if_neg (by omega)

/-- At a tie it is the region that says who wins. -/
theorem between_of_tie (tie : start.start = ending.start) :
    between closingLast (some ending) (some (id, start)) =
      if closingLast = true then some (.child id start) else some (.closing ending) := by
  simp only [between, tie, lt_irrefl, true_and, false_or]

end Both

end Choice

namespace Grammar

variable {grammar : Grammar} {pattern : Pattern} {pushed : Option Text} {text : Text}
  {position : Nat}

/-- The closing match of a region at a position of a whole text. -/
def closingAt (grammar : Grammar) (pattern : Pattern) (pushed : Option Text) (text : Text)
    (position : Nat) : Option Regex.Match := do
  let regex ← grammar.regexes[← pattern.closing]?
  (regex.alone.matchAt text position).filter (repeats pattern pushed text)

/-- The opening match at a position of a whole text of the first child that has one there. -/
def childAt (grammar : Grammar) (pattern : Pattern) (text : Text) (position : Nat) :
    Option (PatternId × Regex.Match) :=
  (grammar.members pattern).findSome? fun (id, matcher) =>
    (matcher.matchAt text position).map fun found => (id, found)

/-- The opening match at a place in a window of the first child that has one there. -/
def childIn (grammar : Grammar) (pattern : Pattern) (window : Window) (position index : Nat) :
    Option (PatternId × Regex.Match) :=
  (grammar.members pattern).findSome? fun (id, matcher) =>
    (matcher.attempt window.subject (window.relative position) index window.flags).map
      fun found => (id, found)

/-- The match that a scan uses at a position of a whole text, if it uses one there. -/
def choiceAt (grammar : Grammar) (pattern : Pattern) (pushed : Option Text) (text : Text)
    (position : Nat) : Option Choice :=
  Choice.between pattern.closingLast (grammar.closingAt pattern pushed text position)
    (grammar.childAt pattern text position)

theorem closingAt_of_none (closes : pattern.closing = none) :
    grammar.closingAt pattern pushed text position = none := by
  unfold closingAt
  rw [closes]
  rfl

theorem closingAt_of_some {closing : RegexId} {regex : Regex}
    (closes : pattern.closing = some closing) (compiled : grammar.regexes[closing]? = some regex) :
    grammar.closingAt pattern pushed text position =
      (regex.alone.matchAt text position).filter (repeats pattern pushed text) := by
  unfold closingAt
  rw [closes]
  show (grammar.regexes[closing]?.bind fun regex => _) = _
  rw [compiled]
  rfl

theorem pattern_eq_ok_iff {id : PatternId} :
    grammar.pattern id = .ok pattern ↔ grammar.patterns[id]? = some pattern := by
  unfold Grammar.pattern
  cases grammar.patterns[id]? with
  | none => simp
  | some found => simp

theorem mem_of_pattern {id : PatternId} (known : grammar.pattern id = .ok pattern) :
    pattern ∈ grammar.patterns :=
  Array.mem_of_getElem? (pattern_eq_ok_iff.mp known)

theorem findSome?_congr {α β : Type} {list : List α} {first second : α → Option β}
    (same : ∀ value ∈ list, first value = second value) :
    list.findSome? first = list.findSome? second := by
  induction list with
  | nil => rfl
  | cons value rest ih =>
    rw [List.findSome?_cons, List.findSome?_cons, same value List.mem_cons_self,
      ih fun other member => same other (List.mem_cons_of_mem _ member)]

theorem mem_of_mapM {α β : Type} {f : α → Option β} {list : List α} {results : List β}
    (all : list.mapM f = some results) {result : β} (member : result ∈ results) :
    ∃ value ∈ list, f value = some result := by
  induction list generalizing results with
  | nil =>
    cases all
    cases member
  | cons value rest ih =>
    rw [List.mapM_cons] at all
    obtain ⟨first, here, all⟩ := Option.bind_eq_some_iff.mp all
    obtain ⟨others, there, all⟩ := Option.bind_eq_some_iff.mp all
    cases all
    rcases List.mem_cons.mp member with rfl | later
    · exact ⟨value, List.mem_cons_self, here⟩
    · obtain ⟨found, inRest, same⟩ := ih there later
      exact ⟨found, List.mem_cons_of_mem _ inRest, same⟩

/-- The members of a pattern are the opening regexes of its children, which are patterns of the
grammar. -/
theorem exists_of_mem_members {id : PatternId} {matcher : Regex.Matcher}
    (member : (id, matcher) ∈ grammar.members pattern) :
    id ∈ pattern.children ∧ ∃ child, grammar.patterns[id]? = some child ∧ ∃ opening ∈ child.opening,
      ∃ regex, grammar.regexes[opening]? = some regex ∧ regex.member = .ok matcher := by
  unfold members at member
  simp only at member
  cases all : (grammar.openings pattern).mapM fun x => x.2.member.toOption.map fun matcher =>
      (x.1, matcher) with
  | none =>
    rw [all] at member
    cases member
  | some results =>
    rw [all] at member
    obtain ⟨⟨child, regex⟩, inOpenings, same⟩ := mem_of_mapM all member
    obtain ⟨found, isMember, same⟩ := Option.map_eq_some_iff.mp same
    cases same
    unfold openings at inOpenings
    obtain ⟨number, isChild, here⟩ := List.mem_filterMap.mp inOpenings
    obtain ⟨child, known, here⟩ := Option.bind_eq_some_iff.mp here
    obtain ⟨opening, opens, here⟩ := Option.bind_eq_some_iff.mp here
    obtain ⟨regex, compiled, here⟩ := Option.bind_eq_some_iff.mp here
    cases here
    refine ⟨isChild, child, known, opening, opens, regex, compiled, ?_⟩
    cases outcome : regex.member with
    | error error =>
      rw [outcome] at isMember
      cases isMember
    | ok compiledMatcher =>
      rw [outcome] at isMember
      cases isMember
      rfl

theorem Local.member (isLocal : grammar.Local) {id : PatternId} {matcher : Regex.Matcher}
    (member : (id, matcher) ∈ grammar.members pattern) : matcher.Local grammar.maxExtend := by
  obtain ⟨-, child, known, opening, opens, regex, compiled, isMember⟩ :=
    exists_of_mem_members member
  exact isLocal.opening child (Array.mem_of_getElem? known) opening opens regex matcher compiled
    isMember

/-! ### Matches keep near -/

theorem exists_of_between {closingLast : Bool} {ending : Option Regex.Match}
    {start : Option (PatternId × Regex.Match)} {choice : Choice}
    (chosen : Choice.between closingLast ending start = some choice) :
    (∃ found, ending = some found ∧ choice = .closing found) ∨
      ∃ id found, start = some (id, found) ∧ choice = .child id found := by
  rcases ending with - | ending <;> rcases start with - | ⟨id, start⟩
  · cases chosen
  · cases chosen
    exact Or.inr ⟨id, start, rfl, rfl⟩
  · cases chosen
    exact Or.inl ⟨ending, rfl, rfl⟩
  · simp only [Choice.between] at chosen
    split at chosen
    · cases chosen
      exact Or.inr ⟨id, start, rfl, rfl⟩
    · cases chosen
      exact Or.inl ⟨ending, rfl, rfl⟩

theorem exists_of_closingAt {found : Regex.Match}
    (here : grammar.closingAt pattern pushed text position = some found) :
    ∃ closing ∈ pattern.closing, ∃ regex, grammar.regexes[closing]? = some regex ∧
      regex.alone.matchAt text position = some found := by
  unfold closingAt at here
  obtain ⟨closing, closes, here⟩ := Option.bind_eq_some_iff.mp here
  obtain ⟨regex, compiled, here⟩ := Option.bind_eq_some_iff.mp here
  exact ⟨closing, closes, regex, compiled, (Option.filter_eq_some_iff.mp here).1⟩

theorem exists_of_childAt {id : PatternId} {found : Regex.Match}
    (here : grammar.childAt pattern text position = some (id, found)) :
    ∃ matcher, (id, matcher) ∈ grammar.members pattern ∧
      matcher.matchAt text position = some found := by
  unfold childAt at here
  obtain ⟨⟨number, matcher⟩, member, here⟩ := List.exists_of_findSome?_eq_some here
  obtain ⟨matched, attempt, same⟩ := Option.map_eq_some_iff.mp here
  cases same
  exact ⟨matcher, member, attempt⟩

/-- What a region ends with keeps near the position. -/
theorem near_of_closingAt (isLocal : grammar.Local) (held : text.Held)
    (member : pattern ∈ grammar.patterns) (inside : position < text.size)
    (boundary : text.isBoundary position = true) {found : Regex.Match}
    (here : grammar.closingAt pattern pushed text position = some found) :
    found.Near text grammar.maxExtend position := by
  obtain ⟨closing, closes, regex, compiled, attempt⟩ := exists_of_closingAt here
  exact (isLocal.closing pattern member closing closes regex compiled).near held inside boundary
    attempt

/-- What a child begins with keeps near the position. -/
theorem near_of_childAt (isLocal : grammar.Local) (held : text.Held)
    (inside : position < text.size) (boundary : text.isBoundary position = true) {id : PatternId}
    {found : Regex.Match} (here : grammar.childAt pattern text position = some (id, found)) :
    found.Near text grammar.maxExtend position := by
  obtain ⟨matcher, member, attempt⟩ := exists_of_childAt here
  exact (isLocal.member member).near held inside boundary attempt

/-- What a scan uses keeps near the position. -/
theorem near_of_choiceAt (isLocal : grammar.Local) (held : text.Held)
    (member : pattern ∈ grammar.patterns) (inside : position < text.size)
    (boundary : text.isBoundary position = true) {choice : Choice}
    (here : grammar.choiceAt pattern pushed text position = some choice) :
    choice.found.Near text grammar.maxExtend position := by
  rcases exists_of_between here with ⟨found, ending, rfl⟩ | ⟨id, found, start, rfl⟩
  · exact near_of_closingAt isLocal held member inside boundary ending
  · exact near_of_childAt isLocal held inside boundary start

/-- A child that a scan uses is a pattern of the grammar. -/
theorem exists_of_choiceAt_child {id : PatternId} {found : Regex.Match}
    (here : grammar.choiceAt pattern pushed text position = some (.child id found)) :
    ∃ child, grammar.pattern id = .ok child := by
  rcases exists_of_between here with ⟨ending, -, same⟩ | ⟨number, matched, start, same⟩
  · cases same
  · cases same
    obtain ⟨matcher, member, -⟩ := exists_of_childAt start
    obtain ⟨-, child, known, -⟩ := exists_of_mem_members member
    exact ⟨child, pattern_eq_ok_iff.mpr known⟩

/-! ### Windows do not matter -/

/-- The window is one that the scan of a text may look into from a position on, which need not be between
characters. -/
structure Looks (grammar : Grammar) (text : Text) (window : Window) (position : Nat) : Prop where
  stops : text.isBoundary window.searchEnd = true
  ordered : position < window.searchEnd
  around : ∃ start ≤ position,
    Window.around text start window.searchEnd grammar.maxExtend = .ok window

/-- What a window covers reaches behind the end of the search as far as regexes see. -/
theorem Looks.covers {window : Window} (looks : grammar.Looks text window position)
    (held : text.Held) :
    ∃ stop, window.Covers text stop ∧ window.offset ≤ position ∧ window.searchEnd ≤ stop ∧
      min (window.searchEnd + grammar.maxExtend) text.size ≤ stop := by
  obtain ⟨start, earlier, aroundStart⟩ := looks.around
  obtain ⟨found, stop, around, covers, searchEnd, offset, back⟩ := Window.exists_around
    grammar.maxExtend held.size_lt_maxSize.le looks.stops (earlier.trans looks.ordered.le)
  have same : window = found := Except.ok.inj (aroundStart.symm.trans around)
  subst same
  have := Text.le_size_of_isBoundary looks.stops
  exact ⟨stop, covers, offset.trans earlier, by omega, back⟩

/-- What a scan finds is what it has chosen. -/
theorem choose_of_search {window : Window} {state : ScanState} {choice : Option Choice}
    (found : grammar.search window state = .ok choice) :
    grammar.choose window state = .ok choice := by
  unfold search at found
  obtain ⟨_, -, found⟩ := Fault.bind_eq_ok.mp found
  obtain ⟨_, -, found⟩ := Fault.bind_eq_ok.mp found
  obtain ⟨other, chosen, found⟩ := Fault.bind_eq_ok.mp found
  cases other with
  | none =>
    cases found
    exact chosen
  | some winner =>
    obtain ⟨_, -, found⟩ := Fault.bind_eq_ok.mp found
    obtain ⟨_, -, found⟩ := Fault.bind_eq_ok.mp found
    cases found
    exact chosen

/-- The window is one that the scan of a text may search from a position on. -/
structure Searches (grammar : Grammar) (text : Text) (window : Window) (position : Nat) : Prop where
  starts : text.isBoundary position = true
  stops : text.isBoundary window.searchEnd = true
  ordered : position < window.searchEnd
  around : ∃ start ≤ position, text.isBoundary start = true ∧
    Window.around text start window.searchEnd grammar.maxExtend = .ok window

namespace Searches

variable {window : Window}

/-- A window shows every position where a match may start. -/
theorem shows (searches : grammar.Searches text window position) {place : Nat}
    (behind : position ≤ place) (before : place < window.searchEnd) :
    window.Shows text grammar.maxExtend place := by
  obtain ⟨start, earlier, starts, around⟩ := searches.around
  exact ⟨searches.stops, before, start, earlier.trans behind, starts, around⟩

/-- A window may be searched on from where the search has got to. -/
theorem later (searches : grammar.Searches text window position) {place : Nat}
    (behind : position ≤ place) (before : place < window.searchEnd)
    (boundary : text.isBoundary place = true) : grammar.Searches text window place := by
  obtain ⟨start, earlier, starts, around⟩ := searches.around
  exact ⟨boundary, searches.stops, before, start, earlier.trans behind, starts, around⟩

theorem looks (searches : grammar.Searches text window position) :
    grammar.Looks text window position := by
  obtain ⟨start, earlier, -, around⟩ := searches.around
  exact ⟨searches.stops, searches.ordered, start, earlier, around⟩

theorem covers (searches : grammar.Searches text window position) (held : text.Held) :
    ∃ stop, window.Covers text stop ∧ window.offset ≤ position ∧ window.searchEnd ≤ stop ∧
      min (window.searchEnd + grammar.maxExtend) text.size ≤ stop :=
  searches.looks.covers held

/-- Positions of the search are positions of the text. -/
theorem place (searches : grammar.Searches text window position) (held : text.Held) {index : Nat}
    (behind : window.relative position ≤ index) (before : index < window.relative window.searchEnd)
    (boundary : window.subject.isBoundary index = true) :
    position ≤ window.offset + index ∧ window.offset + index < window.searchEnd ∧
      text.isBoundary (window.offset + index) = true := by
  obtain ⟨stop, covers, offset, -, -⟩ := searches.covers held
  unfold Window.relative at behind before
  exact ⟨by omega, by omega, ((covers.isBoundary index).mp boundary).2⟩

/-- A regex matches in the window what it matches in the text, wherever the search began. -/
theorem attempt_eq (searches : grammar.Searches text window position) (held : text.Held)
    {matcher : Regex.Matcher} (isLocal : matcher.Local grammar.maxExtend) {index origin : Nat}
    (behind : window.relative position ≤ index) (before : index < window.relative window.searchEnd)
    (boundary : window.subject.isBoundary index = true) (earlier : origin ≤ index) :
    (matcher.attempt window.subject origin index window.flags).map (·.moved window.offset) =
      matcher.matchAt text (window.offset + index) := by
  obtain ⟨after, inSearch, isBoundary⟩ := searches.place held behind before boundary
  have index_eq : window.relative (window.offset + index) = index := Nat.add_sub_cancel_left _ _
  have moved := isLocal.attempt_moved held (searches.shows after inSearch) isBoundary
    (earlier.trans_eq index_eq.symm)
  rwa [index_eq] at moved

/-- What a regex matches in the window keeps near. -/
theorem near (searches : grammar.Searches text window position) (held : text.Held)
    {matcher : Regex.Matcher} (isLocal : matcher.Local grammar.maxExtend) {index origin : Nat}
    (behind : window.relative position ≤ index) (before : index < window.relative window.searchEnd)
    (boundary : window.subject.isBoundary index = true) (earlier : origin ≤ index)
    {found : Regex.Match}
    (here : matcher.attempt window.subject origin index window.flags = some found) :
    (found.moved window.offset).Near text grammar.maxExtend (window.offset + index) := by
  obtain ⟨-, inSearch, isBoundary⟩ := searches.place held behind before boundary
  have matched := searches.attempt_eq held isLocal behind before boundary earlier
  rw [here] at matched
  exact isLocal.near held (inSearch.trans_le (Text.le_size_of_isBoundary searches.stops)) isBoundary
    matched.symm

/-- What is first in the window is first in the text. -/
theorem first (searches : grammar.Searches text window position) (held : text.Held) {α β : Type}
    {outcome : Nat → Option α} {outside : Nat → Option β} {moved : α → β} {stop : Nat}
    (within : stop ≤ window.relative window.searchEnd)
    (same : ∀ index, window.relative position ≤ index → index < stop →
      window.subject.isBoundary index = true →
      outside (window.offset + index) = (outcome index).map moved) {result : Option α}
    (first : window.subject.First outcome (window.relative position) stop result) :
    text.First outside position (window.offset + stop) (result.map moved) := by
  obtain ⟨last, covers, offset, inside, -⟩ := searches.covers held
  have ordered := searches.ordered
  unfold Window.relative at within
  have inText := first.ofWindow covers (by omega) same
  unfold Window.relative at inText
  rwa [Nat.add_sub_of_le offset] at inText

/-- A search may begin where the scan is, and the window does not end before it does. -/
theorem inWindow (searches : grammar.Searches text window position) (held : text.Held) :
    window.subject.IsUtf8 ∧ window.subject.isBoundary (window.relative position) = true ∧
      window.relative window.searchEnd ≤ window.subject.size ∧
      window.offset + window.relative window.searchEnd = window.searchEnd := by
  obtain ⟨stop, covers, offset, inside, -⟩ := searches.covers held
  have sizes := covers.size_add
  have ordered := searches.ordered
  have start := Nat.add_sub_of_le offset
  refine ⟨covers.isUtf8 held.utf8, ?_, ?_, ?_⟩
  · rw [covers.isBoundary, Window.relative, start]
    exact ⟨ordered.le.trans inside, searches.starts⟩
  · unfold Window.relative
    omega
  · exact Nat.add_sub_of_le (offset.trans ordered.le)

/-- A scan uses what it has chosen, for the positions of the search and of a match in the text are
sizes. -/
theorem search_eq {state : ScanState} (searches : grammar.Searches text window state.position)
    (held : text.Held) {choice : Option Choice} (chosen : grammar.choose window state = .ok choice)
    (inText : ∀ winner ∈ choice, winner.found.start ≤ winner.found.stop ∧
      window.offset + winner.found.stop ≤ text.size) :
    grammar.search window state = .ok choice := by
  obtain ⟨stop, -, offset, -, -⟩ := searches.covers held
  have ordered := searches.ordered
  have small := held.size_lt_maxSize
  unfold search
  rw [checkedSub_eq_ok offset, checkedSub_eq_ok (offset.trans ordered.le), chosen]
  cases choice with
  | none => rfl
  | some winner =>
    obtain ⟨forward, within⟩ := inText winner rfl
    simp only [Fault.ok_bind]
    rw [checkedAdd_eq_ok (by omega), checkedAdd_eq_ok (by omega)]
    rfl

/-- Whether a match repeats a remembered text can be told in the window. -/
theorem repeats_eq (searches : grammar.Searches text window position) (held : text.Held)
    {place : Nat} {found : Regex.Match} (before : place < window.searchEnd)
    (near : (found.moved window.offset).Near text grammar.maxExtend place) :
    repeats pattern pushed window.subject found =
      repeats pattern pushed text (found.moved window.offset) := by
  obtain ⟨stop, covers, -, -, seen⟩ := searches.covers held
  unfold repeats
  split
  · rw [Regex.Match.group?_moved covers (by omega) near]
  · rfl

end Searches

section Windows

variable {window : Window}

/-- The closing match is the first one of the region in the text. -/
theorem closing?_first (wellFormed : grammar.WellFormed) (isLocal : grammar.Local)
    (held : text.Held) (member : pattern ∈ grammar.patterns)
    (searches : grammar.Searches text window position) (pushed : Option Text) :
    ∃ ending, grammar.closing? pattern pushed window position = .ok ending ∧
      text.First (grammar.closingAt pattern pushed text) position window.searchEnd
        (ending.map (·.moved window.offset)) := by
  unfold closing?
  cases closes : pattern.closing with
  | none =>
    exact ⟨none, rfl, .none fun place _ _ _ => closingAt_of_none closes⟩
  | some closing =>
    have known := wellFormed.closing pattern member closing closes
    have compiled : grammar.regexes[closing]? = some grammar.regexes[closing] :=
      Array.getElem?_eq_getElem known
    have regexLocal := isLocal.closing pattern member closing closes _ compiled
    generalize grammar.regexes[closing] = regex at compiled regexLocal
    obtain ⟨utf8, inWindow, within, searchEnd⟩ := searches.inWindow held
    have free : ∀ origin index, window.relative position ≤ origin →
        window.subject.isBoundary origin = true → origin ≤ index →
        index < window.relative window.searchEnd → window.subject.isBoundary index = true →
        regex.alone.attempt window.subject origin index window.flags =
          regex.alone.attempt window.subject index index window.flags := by
      intro origin index behind _ earlier before boundary
      apply Option.map_injective (Regex.Match.moved_injective window.offset)
      have after := behind.trans earlier
      exact (searches.attempt_eq held regexLocal after before boundary earlier).trans
        (searches.attempt_eq held regexLocal after before boundary le_rfl).symm
    have starts : ∀ index found, window.relative position ≤ index →
        index < window.relative window.searchEnd → window.subject.isBoundary index = true →
        regex.alone.attempt window.subject index index window.flags = some found →
        found.start = index := by
      intro index found behind before boundary here
      have start := (searches.near held regexLocal behind before boundary le_rfl here).start
      simp only [Regex.Match.moved] at start
      omega
    obtain ⟨offers, went, first⟩ := Regex.Matcher.findAt_first
      (repeats pattern pushed window.subject) [] utf8 within inWindow free starts
    refine ⟨offers.accepted, ?_, ?_⟩
    · simp only [Grammar.regex, compiled]
      rw [Fault.bind_eq_ok]
      refine ⟨regex, rfl, ?_⟩
      rw [Fault.bind_eq_ok]
      exact ⟨offers, went, rfl⟩
    · rw [← searchEnd]
      refine searches.first held le_rfl ?_ first
      · intro index behind before boundary
        have matched := searches.attempt_eq held regexLocal behind before boundary le_rfl
        rw [closingAt_of_some closes compiled, ← matched]
        cases here : regex.alone.attempt window.subject index index window.flags with
        | none => rfl
        | some found =>
          obtain ⟨-, inSearch, -⟩ := searches.place held behind before boundary
          simp only [Option.map_some, Option.filter_some]
          rw [searches.repeats_eq held inSearch
            (searches.near held regexLocal behind before boundary le_rfl here)]
          split <;> rfl

theorem childLimit_le (ending : Option Regex.Match) (stop : Nat) : childLimit ending stop ≤ stop := by
  unfold childLimit
  split
  · exact min_le_right _ _
  · exact le_rfl

/-- The opening match is the first one of the children in the window, if regexes match where they are
tried. -/
theorem child?_firstIn (grammar : Grammar) (pattern : Pattern) (ending : Option Regex.Match)
    (utf8 : window.subject.IsUtf8)
    (boundary : window.subject.isBoundary (window.relative position) = true)
    (within : window.relative window.searchEnd ≤ window.subject.size)
    (starts : ∀ index id found, window.relative position ≤ index →
      index < window.relative window.searchEnd → window.subject.isBoundary index = true →
        grammar.childIn pattern window position index = some (id, found) → found.start = index) :
    window.subject.First (grammar.childIn pattern window position) (window.relative position)
      (childLimit ending (window.relative window.searchEnd))
      (grammar.child? pattern window position ending) := by
  have limit := childLimit_le ending (window.relative window.searchEnd)
  have searched := Regex.Matcher.firstFrom_first utf8 (grammar.childIn pattern window position)
    boundary (limit.trans within)
  unfold child? Regex.Matcher.searchAll
  change window.subject.First _ _ _ ((Regex.Matcher.firstFrom window.subject
    (grammar.childIn pattern window position) _ _).filter _)
  generalize Regex.Matcher.firstFrom _ _ _ _ = result at searched ⊢
  cases searched with
  | none quiet => exact .none quiet
  | @some index entry behind before here found quiet =>
    -- The match starts before the limit as well.
    obtain ⟨id, matched⟩ := entry
    have start := starts index id matched behind (before.trans_le limit) here found
    rw [Option.filter_some, if_pos (decide_eq_true (start ▸ before))]
    exact .some behind before here found quiet

/-- The opening match is the first one of the children in the text. -/
theorem child?_first (isLocal : grammar.Local) (held : text.Held)
    (searches : grammar.Searches text window position) (pattern : Pattern)
    (ending : Option Regex.Match) :
    text.First (grammar.childAt pattern text) position
      (window.offset + childLimit ending (window.relative window.searchEnd))
      ((grammar.child? pattern window position ending).map
        fun (id, found) => (id, found.moved window.offset)) := by
  obtain ⟨utf8, inWindow, within, searchEnd⟩ := searches.inWindow held
  have limit := childLimit_le ending (window.relative window.searchEnd)
  have found := grammar.child?_firstIn pattern ending utf8 inWindow within
    fun index id found behind before boundary here => by
      obtain ⟨⟨other, matcher⟩, member, attempt⟩ := List.exists_of_findSome?_eq_some here
      obtain ⟨matched, attempted, same⟩ := Option.map_eq_some_iff.mp attempt
      cases same
      have start := (searches.near held (isLocal.member member) behind before boundary behind
        attempted).start
      simp only [Regex.Match.moved] at start
      omega
  refine searches.first held limit (fun index behind before boundary => ?_) found
  unfold childAt childIn
  rw [List.map_findSome?]
  refine findSome?_congr fun entry member => ?_
  obtain ⟨id, matcher⟩ := entry
  simp only [Function.comp_apply]
  rw [← searches.attempt_eq held (isLocal.member member) behind (before.trans_le limit) boundary
    behind, Option.map_map, Option.map_map]
  rfl

/-- The winner of the first closing match and the first opening match, which may be looked for no
further than the closing match, is the first winner. -/
theorem first_between {closing : Nat → Option Regex.Match}
    {child : Nat → Option (PatternId × Regex.Match)} {stop limit : Nat}
    (closes : ∀ place found, place < stop → text.isBoundary place = true →
      closing place = some found → found.start = place)
    (opens : ∀ place id found, place < stop → text.isBoundary place = true →
      child place = some (id, found) → found.start = place)
    {ending : Option Regex.Match} {start : Option (PatternId × Regex.Match)}
    (reaches : childLimit ending stop ≤ limit) (within : limit ≤ stop)
    (firstClosing : text.First closing position stop ending)
    (firstChild : text.First child position limit start) (closingLast : Bool) :
    text.First (fun place => Choice.between closingLast (closing place) (child place)) position stop
      (Choice.between closingLast ending start) := by
  have skips : ∀ bound, text.Quiet closing position bound → text.Quiet child position bound →
      text.Quiet (fun place => Choice.between closingLast (closing place) (child place)) position
        bound := by
    intro bound noClosing noChild place behind before boundary
    simp only [noClosing place behind before boundary, noChild place behind before boundary]
    rfl
  cases firstClosing with
  | none noClosing =>
    obtain rfl : limit = stop := le_antisymm within reaches
    cases firstChild with
    | none noChild => exact .none (skips _ noClosing noChild)
    | some behind before boundary here noChild =>
      refine .some behind before boundary ?_ (skips _ (noClosing.mono le_rfl before.le) noChild)
      simp only [noClosing _ behind before boundary, here]
      rfl
  | @some place ending behind before boundary here noClosing =>
    have endingStart := closes place ending before boundary here
    have seen : place < limit := by
      unfold childLimit at reaches
      simp only at reaches
      omega
    cases firstChild with
    | none noChild =>
      refine .some behind before boundary ?_ (skips _ noClosing (noChild.mono le_rfl seen.le))
      simp only [here, noChild _ behind seen boundary]
      rfl
    | @some other start behind' before' boundary' here' noChild =>
      obtain ⟨id, start⟩ := start
      have startStart := opens other id start (before'.trans_le within) boundary' here'
      rcases lt_trichotomy other place with earlier | rfl | later
      · rw [Choice.between_of_lt (startStart.trans_lt (earlier.trans_eq endingStart.symm))]
        refine .some behind' (earlier.trans before) boundary' ?_
          (skips _ (noClosing.mono le_rfl earlier.le) noChild)
        simp only [noClosing _ behind' earlier boundary', here']
        rfl
      · have someone : Choice.between closingLast (some ending) (some (id, start)) ≠ none :=
          fun missing => nomatch (Choice.between_eq_none.mp missing).1
        obtain ⟨choice, chosen⟩ := Option.ne_none_iff_exists'.mp someone
        rw [chosen]
        refine .some behind before boundary ?_ (skips _ noClosing noChild)
        simp only [here, here', chosen]
      · rw [Choice.between_of_gt (endingStart.trans_lt (later.trans_eq startStart.symm))]
        refine .some behind before boundary ?_
          (skips _ noClosing (noChild.mono le_rfl later.le))
        simp only [here, noChild _ behind later boundary]
        rfl

/-- **What a scan uses next is the first match there is in the text**, whatever the window shows
around it and wherever it ends. -/
theorem choose_first (wellFormed : grammar.WellFormed) (isLocal : grammar.Local) (held : text.Held)
    {state : ScanState} (known : grammar.pattern state.stack.top.pattern = .ok pattern)
    (searches : grammar.Searches text window state.position) :
    ∃ choice, grammar.choose window state = .ok choice ∧
      text.First (grammar.choiceAt pattern state.stack.top.pushed text) state.position
        window.searchEnd (choice.map (·.moved window.offset)) := by
  obtain ⟨-, -, -, searchEnd⟩ := searches.inWindow held
  have member := mem_of_pattern known
  obtain ⟨ending, closes, closing⟩ := closing?_first wellFormed isLocal held member searches
    state.stack.top.pushed
  have opening := child?_first isLocal held searches pattern ending
  refine ⟨Choice.between pattern.closingLast ending
    (grammar.child? pattern window state.position ending), ?_, ?_⟩
  · unfold choose
    simp only [Fault.bind_eq_ok]
    exact ⟨pattern, known, ending, closes, rfl⟩
  rw [← Choice.between_moved]
  have inText := Text.le_size_of_isBoundary searches.stops
  refine first_between ?_ ?_ ?_ ?_ closing opening pattern.closingLast
  · intro place found before boundary here
    exact (near_of_closingAt isLocal held member (before.trans_le inText) boundary here).start
  · intro place id found before boundary here
    exact (near_of_childAt isLocal held (before.trans_le inText) boundary here).start
  · rcases ending with - | ending
    · exact searchEnd.ge
    · simp only [childLimit, Option.map_some, Regex.Match.moved]
      omega
  · exact (Nat.add_le_add_left (childLimit_le _ _) _).trans_eq searchEnd

end Windows

/-! ### Other texts do not matter -/

section Texts

variable {first second : Text} {place : Nat}

/-- A region ends in the same way where two texts look the same. -/
theorem closingAt_moved (isLocal : grammar.Local) (firstHeld : first.Held) (secondHeld : second.Held)
    (member : pattern ∈ grammar.patterns) (inFirst : position < first.size)
    (inSecond : place < second.size) (firstBoundary : first.isBoundary position = true)
    (secondBoundary : second.isBoundary place = true)
    (same : Text.SameAround grammar.maxExtend first position second place) :
    (grammar.closingAt pattern pushed first position).map (·.moved place) =
      (grammar.closingAt pattern pushed second place).map (·.moved position) := by
  cases closes : pattern.closing with
  | none =>
    rw [closingAt_of_none closes, closingAt_of_none closes]
    rfl
  | some closing =>
    cases compiled : grammar.regexes[closing]? with
    | none =>
      have missing : ∀ text position, grammar.closingAt pattern pushed text position = none := by
        intro text position
        unfold closingAt
        rw [closes]
        show (grammar.regexes[closing]?.bind fun regex => _) = _
        rw [compiled]
        rfl
      rw [missing, missing]
      rfl
    | some regex =>
      rw [closingAt_of_some closes compiled, closingAt_of_some closes compiled]
      have regexLocal := isLocal.closing pattern member closing closes regex compiled
      have moved := regexLocal.matchAt_moved firstHeld secondHeld inFirst inSecond firstBoundary
        secondBoundary same
      cases here : regex.alone.matchAt first position with
      | none =>
        rw [here] at moved
        rw [Option.map_eq_none_iff.mp moved.symm]
        rfl
      | some found =>
        rw [here] at moved
        obtain ⟨counterpart, there, aligned⟩ := Option.map_eq_some_iff.mp moved.symm
        have near := regexLocal.near firstHeld inFirst firstBoundary here
        have accepts : repeats pattern pushed first found =
            repeats pattern pushed second counterpart := by
          unfold repeats
          split
          · rw [Regex.Match.group?_congr same near aligned.symm]
          · rfl
        rw [there]
        simp only [Option.filter_some, accepts]
        split
        · simp only [Option.map_some, aligned]
        · rfl

/-- A child begins in the same way where two texts look the same. -/
theorem childAt_moved (isLocal : grammar.Local) (firstHeld : first.Held) (secondHeld : second.Held)
    (inFirst : position < first.size) (inSecond : place < second.size)
    (firstBoundary : first.isBoundary position = true)
    (secondBoundary : second.isBoundary place = true)
    (same : Text.SameAround grammar.maxExtend first position second place) :
    (grammar.childAt pattern first position).map (fun (id, found) => (id, found.moved place)) =
      (grammar.childAt pattern second place).map fun (id, found) => (id, found.moved position) := by
  unfold childAt
  rw [List.map_findSome?, List.map_findSome?]
  refine findSome?_congr fun entry member => ?_
  obtain ⟨id, matcher⟩ := entry
  have moved := (isLocal.member member).matchAt_moved firstHeld secondHeld inFirst inSecond
    firstBoundary secondBoundary same
  have paired := congrArg (Option.map fun found => (id, found)) moved
  simp only [Function.comp_apply, Option.map_map] at paired ⊢
  exact paired

/-- **A scan uses the same match where two texts look the same.** -/
theorem choiceAt_moved (isLocal : grammar.Local) (firstHeld : first.Held) (secondHeld : second.Held)
    (member : pattern ∈ grammar.patterns) (inFirst : position < first.size)
    (inSecond : place < second.size) (firstBoundary : first.isBoundary position = true)
    (secondBoundary : second.isBoundary place = true)
    (same : Text.SameAround grammar.maxExtend first position second place) (pushed : Option Text) :
    (grammar.choiceAt pattern pushed first position).map (·.moved place) =
      (grammar.choiceAt pattern pushed second place).map (·.moved position) := by
  unfold choiceAt
  rw [← Choice.between_moved, ← Choice.between_moved,
    closingAt_moved isLocal firstHeld secondHeld member inFirst inSecond firstBoundary
      secondBoundary same,
    childAt_moved isLocal firstHeld secondHeld inFirst inSecond firstBoundary secondBoundary same]

end Texts

end Grammar

end Highlight
