/-
**A scan gets on whatever its regexes match.**

Of a regex it is only asked that a match lies behind where the search began, in the subject and between
characters of it. That is enough for a scan never to get stuck:

* `Regex.Matcher.Lawful`, `Regex.Matcher.Bounded`: what is asked of a regex, with a bound for the length
  of a match, and without one;
* `Grammar.choose_spec`: a scan finds what to use next in the window, or that there is nothing;
* `Grammar.makes_stride`: **it always gets on, by moves that are short** except over text that nothing
  matches.
-/

import Highlight.Proofs.Grammar.Brackets
import Highlight.Proofs.Scan.Run

namespace Highlight

/-! ### What is asked of regexes -/

namespace Regex

/-- A match lies behind where the search began, and between characters of the subject. -/
structure Match.Inside (found : Match) (subject : Text) (origin : Nat) : Prop where
  behind : origin ≤ found.start
  ordered : found.start ≤ found.stop
  starts : subject.isBoundary found.start = true
  stops : subject.isBoundary found.stop = true

/-- A match that is offered to a scan which looks for one that starts in `[start, stop)`. -/
structure Match.Offered (found : Match) (subject : Text) (longest start stop : Nat) : Prop
    extends Match.Inside found subject start where
  before : found.start < stop
  short : found.stop ≤ found.start + longest

namespace Matcher

/-- Wherever a search tries a regex, what it matches lies inside of what was searched. -/
def Lawful (matcher : Matcher) : Prop :=
  ∀ {subject : Text} {origin position : Nat} {flags : SearchFlags} {found : Match}, subject.Held →
    origin ≤ position → position < subject.size → subject.isBoundary origin = true →
      subject.isBoundary position = true →
        matcher.attempt subject origin position flags = some found → found.Inside subject origin

/-- A regex whose matches have `longest` bytes at most. -/
def Bounded (matcher : Matcher) (longest : Nat) : Prop :=
  ∀ {subject : Text} {origin position : Nat} {flags : SearchFlags} {found : Match}, subject.Held →
    origin ≤ position → position < subject.size → subject.isBoundary origin = true →
      subject.isBoundary position = true →
        matcher.attempt subject origin position flags = some found →
          found.Inside subject origin ∧ found.stop ≤ found.start + longest

theorem Bounded.lawful {matcher : Matcher} {longest : Nat} (bounded : matcher.Bounded longest) :
    matcher.Lawful :=
  fun held earlier inside starts boundary here => (bounded held earlier inside starts boundary here).1

/-- No match is longer than the subject. -/
theorem Lawful.bounded {matcher : Matcher} (lawful : matcher.Lawful) : matcher.Bounded maxSize := by
  intro subject origin position flags found held earlier inside starts boundary here
  have isInside := lawful held earlier inside starts boundary here
  have within := Text.le_size_of_isBoundary isInside.stops
  have small := held.size_lt_maxSize
  exact ⟨isInside, by omega⟩

/-- A character has as many bytes as the regex that matches it. -/
theorem bounded_ofCharacter (byte : UInt8) : (ofCharacter byte).Bounded 1 := by
  intro subject origin position flags found held earlier inside starts boundary here
  unfold ofCharacter at here
  simp only at here
  split at here
  · rename_i matched
    cases here
    exact ⟨⟨earlier, Nat.le_succ _, boundary, matched.2⟩, le_rfl⟩
  · cases here

/-! ### Searches -/

/-- What a search finds is found at a boundary of the range. -/
theorem exists_of_firstFrom {α : Type} {subject : Text} (utf8 : subject.IsUtf8)
    {attempt : Nat → Option α} {position stop : Nat} (boundary : subject.isBoundary position = true)
    (within : stop ≤ subject.size) {value : α}
    (found : firstFrom subject attempt position stop = some value) :
    ∃ place, position ≤ place ∧ place < stop ∧ subject.isBoundary place = true ∧
      attempt place = some value := by
  have first := firstFrom_first utf8 attempt boundary within
  rw [found] at first
  cases first with
  | some behind before boundary here quiet => exact ⟨_, behind, before, boundary, here⟩

section Searches

variable {subject : Text} (held : subject.Held) {flags : SearchFlags} {longest start stop : Nat}
  (within : stop ≤ subject.size) (boundary : subject.isBoundary start = true)
include held within boundary

/-- A search for a match that is accepted goes well, whatever is accepted. -/
theorem findAt_spec {matcher : Matcher} (bounded : matcher.Bounded longest) (flags : SearchFlags)
    (accept : Nat → Match → Bool) (offered : List Match) :
    ∃ offers, matcher.findAt subject start stop flags accept offered = .ok offers ∧
      ∀ found ∈ offers.accepted, found.Offered subject longest start stop := by
  induction width : stop - start using Nat.strong_induction_on generalizing start offered with
  | _ width ih =>
  have inText : start ≤ subject.size := Text.le_size_of_isBoundary boundary
  have ended : (∀ found ∈ matcher.search subject start stop flags, stop ≤ found.start) →
      ∃ offers, matcher.findAt subject start stop flags accept offered = .ok offers ∧
        ∀ found ∈ offers.accepted, found.Offered subject longest start stop := fun beyond =>
    ⟨_, findAt_of_none inText beyond, fun _ member => nomatch member⟩
  cases result : matcher.search subject start stop flags with
  | none => exact ended fun found member => nomatch result.symm.trans member
  | some found =>
    obtain ⟨place, behind, inRange, atPlace, here⟩ :=
      exists_of_firstFrom held.utf8 boundary within result
    obtain ⟨isInside, short⟩ :=
      bounded held behind (inRange.trans_le within) boundary atPlace here
    have nonempty := behind.trans_lt inRange
    rcases le_or_gt stop found.start with beyond | near
    · refine ended fun other member => ?_
      cases result.symm.trans member
      exact beyond
    · cases accepted : accept offered.length found with
      | true =>
        refine ⟨_, findAt_of_accepted nonempty inText result near accepted, fun other member => ?_⟩
        cases member
        exact ⟨isInside, near, short⟩
      | false =>
        have further := subject.lt_next found.start
        have earlier := isInside.behind
        obtain ⟨offers, went, spec⟩ := ih (stop - subject.next found.start) (by omega)
          (Text.isBoundary_next (near.trans_le within)) (found :: offered) rfl
        refine ⟨offers, ?_, fun other member => ?_⟩
        · rw [findAt_of_refused nonempty inText result earlier near isInside.starts accepted]
          exact went
        · have spec := spec other member
          exact { spec with behind := by have := spec.behind; omega }

/-- What a search for one of several regexes finds. -/
theorem searchAll_spec {κ : Type} {matchers : List (κ × Matcher)}
    (bounded : ∀ key matcher, (key, matcher) ∈ matchers → matcher.Bounded longest) {key : κ}
    {found : Match} (here : searchAll matchers subject start stop flags = some (key, found)) :
    (∃ matcher, (key, matcher) ∈ matchers) ∧ found.Offered subject longest start stop := by
  obtain ⟨searched, before⟩ := Option.filter_eq_some_iff.mp here
  obtain ⟨place, behind, inRange, atPlace, first⟩ :=
    exists_of_firstFrom held.utf8 boundary within searched
  obtain ⟨⟨other, matcher⟩, member, attempt⟩ := List.exists_of_findSome?_eq_some first
  obtain ⟨matched, attempted, same⟩ := Option.map_eq_some_iff.mp attempt
  cases same
  obtain ⟨isInside, short⟩ := bounded key matcher member held behind (inRange.trans_le within)
    boundary atPlace attempted
  exact ⟨⟨matcher, member⟩, isInside, of_decide_eq_true before, short⟩

end Searches

end Matcher

end Regex

/-! ### Grammars -/

namespace Grammar

variable {grammar : Grammar} {text : Text} {longest : Nat}

/-- All regexes of a grammar are such, those that regions end with and those that patterns begin
with. -/
structure AllMatchers (grammar : Grammar) (asked : Regex.Matcher → Prop) : Prop where
  closing : ∀ pattern ∈ grammar.patterns, ∀ id ∈ pattern.closing, ∀ regex,
    grammar.regexes[id]? = some regex → asked regex.alone
  opening : ∀ pattern ∈ grammar.patterns, ∀ id ∈ pattern.opening, ∀ regex matcher,
    grammar.regexes[id]? = some regex → regex.member = .ok matcher → asked matcher

/-- Whatever the regexes of a grammar match lies inside of what was searched. -/
def Lawful (grammar : Grammar) : Prop := grammar.AllMatchers fun matcher => matcher.Lawful

/-- The matches of a grammar have `longest` bytes at most. -/
def Bounded (grammar : Grammar) (longest : Nat) : Prop :=
  grammar.AllMatchers fun matcher => matcher.Bounded longest

theorem AllMatchers.imp {asked other : Regex.Matcher → Prop} (all : grammar.AllMatchers asked)
    (implies : ∀ matcher, asked matcher → other matcher) : grammar.AllMatchers other :=
  ⟨fun pattern member id closes regex compiled =>
      implies _ (all.closing pattern member id closes regex compiled),
    fun pattern member id opens regex matcher compiled isMember =>
      implies _ (all.opening pattern member id opens regex matcher compiled isMember)⟩

theorem Lawful.bounded (lawful : grammar.Lawful) : grammar.Bounded maxSize :=
  lawful.imp fun _ matcher => matcher.bounded

theorem AllMatchers.member {asked : Regex.Matcher → Prop} (all : grammar.AllMatchers asked)
    {pattern : Pattern} {id : PatternId} {matcher : Regex.Matcher}
    (member : (id, matcher) ∈ grammar.members pattern) : asked matcher := by
  obtain ⟨-, child, known, opening, opens, regex, compiled, isMember⟩ :=
    exists_of_mem_members member
  exact all.opening child (Array.mem_of_getElem? known) opening opens regex matcher compiled isMember

/-- A grammar without regexes asks nothing of them. -/
theorem lawful_of_no_regex (none : grammar.regexes = #[]) : grammar.Lawful := by
  constructor
  · intro pattern _ id _ regex known
    rw [none] at known
    cases known
  · intro pattern _ id _ regex matcher known
    rw [none] at known
    cases known

/-- The regexes of a grammar that has those of this one are all of one kind. -/
theorem allMatchers_of_brackets {asked : Regex.Matcher → Prop}
    (all : ∀ byte, asked (.ofCharacter byte)) (same : grammar.regexes = brackets.regexes) :
    grammar.AllMatchers asked := by
  constructor
  · intro pattern _ id _ regex known
    rw [same] at known
    obtain ⟨source, byte, rfl⟩ := regex_of_brackets known
    exact all byte
  · intro pattern _ id _ regex matcher known member
    rw [same] at known
    obtain ⟨source, byte, rfl⟩ := regex_of_brackets known
    cases member
    exact all byte

theorem allMatchers_brackets {asked : Regex.Matcher → Prop}
    (all : ∀ byte, asked (.ofCharacter byte)) : brackets.AllMatchers asked :=
  allMatchers_of_brackets all rfl

theorem bounded_brackets : brackets.Bounded 1 :=
  allMatchers_brackets fun byte => Regex.Matcher.bounded_ofCharacter byte

theorem lawful_brackets : brackets.Lawful := bounded_brackets.imp fun _ matcher => matcher.lawful

/-! ### Choices -/

section Choices

variable (bounded : grammar.Bounded longest) (held : text.Held) {window : Window}
include bounded held

omit bounded in
/-- What is searched can be held as the text can. -/
theorem Searches.held_subject {position : Nat} (searches : grammar.Searches text window position) :
    window.subject.Held := by
  obtain ⟨stop, covers, -, -, -⟩ := searches.covers held
  exact covers.held held

/-- The search for the end of a region goes well. -/
theorem closing?_spec {position : Nat} (searches : grammar.Searches text window position)
    (wellFormed : grammar.WellFormed) {pattern : Pattern} (member : pattern ∈ grammar.patterns)
    (pushed : Option Text) :
    ∃ ending, grammar.closing? pattern pushed window position = .ok ending ∧
      ∀ found ∈ ending, found.Offered window.subject longest (window.relative position)
        (window.relative window.searchEnd) := by
  obtain ⟨-, inWindow, within, -⟩ := searches.inWindow held
  unfold closing?
  cases closes : pattern.closing with
  | none => exact ⟨none, rfl, fun _ member => nomatch member⟩
  | some closing =>
    have known := wellFormed.closing pattern member closing closes
    have compiled : grammar.regexes[closing]? = some grammar.regexes[closing] :=
      Array.getElem?_eq_getElem known
    have found := Regex.Matcher.findAt_spec (searches.held_subject held) within inWindow
      (bounded.closing pattern member closing closes _ compiled) window.flags
      (fun _ found => repeats pattern pushed window.subject found) []
    simp only [Grammar.regex, compiled, Fault.bind_eq_ok]
    obtain ⟨offers, went, spec⟩ := found
    exact ⟨offers.accepted, ⟨_, rfl, offers, went, rfl⟩, spec⟩

/-- What is found of the children. -/
theorem child?_spec {position : Nat} (searches : grammar.Searches text window position)
    (pattern : Pattern) (ending : Option Regex.Match) {id : PatternId} {found : Regex.Match}
    (here : grammar.child? pattern window position ending = some (id, found)) :
    (∃ child, grammar.pattern id = .ok child) ∧
      found.Offered window.subject longest (window.relative position)
        (window.relative window.searchEnd) := by
  obtain ⟨-, inWindow, within, -⟩ := searches.inWindow held
  have limit := childLimit_le ending (window.relative window.searchEnd)
  obtain ⟨⟨matcher, member⟩, offered⟩ := Regex.Matcher.searchAll_spec (searches.held_subject held)
    (limit.trans within) inWindow (fun _ _ member => bounded.member member) here
  obtain ⟨-, child, known, -⟩ := exists_of_mem_members member
  exact ⟨⟨child, pattern_eq_ok_iff.mpr known⟩,
    { offered with before := offered.before.trans_le limit }⟩

/-- **A scan finds what to use next**, or that there is nothing in the window. -/
theorem choose_spec (wellFormed : grammar.WellFormed) {state : ScanState}
    (known : state.stack.Known grammar)
    (searches : grammar.Searches text window state.position) :
    ∃ choice, grammar.choose window state = .ok choice ∧ ∀ chosen ∈ choice,
      (∀ id found, chosen = .child id found → ∃ child, grammar.pattern id = .ok child) ∧
        chosen.found.Offered window.subject longest (window.relative state.position)
          (window.relative window.searchEnd) := by
  obtain ⟨pattern, top⟩ := known.top wellFormed
  obtain ⟨ending, closes, endingSpec⟩ := closing?_spec bounded held searches wellFormed
    (mem_of_pattern top) state.stack.top.pushed
  refine ⟨Choice.between pattern.closingLast ending
    (grammar.child? pattern window state.position ending), ?_, fun chosen member => ?_⟩
  · unfold choose
    simp only [Fault.bind_eq_ok]
    exact ⟨pattern, top, ending, closes, rfl⟩
  · rcases exists_of_between member with ⟨found, ends, rfl⟩ | ⟨id, found, begins, rfl⟩
    · exact ⟨(fun _ _ same => nomatch same), endingSpec found ends⟩
    · obtain ⟨there, offered⟩ := child?_spec bounded held searches pattern ending begins
      refine ⟨fun other _ same => ?_, offered⟩
      cases same
      exact there

end Choices

end Grammar

/-! ### Moves -/

/-- A move over a single match or character is short. -/
def Move.Short (bound : Nat) (move : Move) : Prop :=
  ∀ token ∈ move.token, token.plain = false → token.stop ≤ token.start + bound

namespace Grammar

variable {grammar : Grammar} {text : Text} {longest : Nat}

section Moves

variable (wellFormed : grammar.WellFormed) (held : text.Held) {window : Window} {state : ScanState}
  (good : state.Good grammar text) (searches : grammar.Searches text window state.position)
include wellFormed held good searches

/-- The move over a match that starts where the scan is can be made, or else the one over a
character. -/
theorem matchMove_stride {choice : Choice}
    (there : ∀ id found, choice = .child id found → ∃ child, grammar.pattern id = .ok child)
    (start : window.offset + choice.found.start = state.position)
    (ordered : choice.found.start ≤ choice.found.stop)
    (stops : text.isBoundary (window.offset + choice.found.stop) = true)
    (short : choice.found.stop ≤ choice.found.start + longest) :
    ∃ move, grammar.matchMove window state choice = .ok move ∧ grammar.Stride text state move ∧
      move.Short (max longest 4) := by
  have inside := searches.ordered.trans_le (Text.le_size_of_isBoundary searches.stops)
  by_cases again : (choice.moved window.offset).found.start =
      (choice.moved window.offset).found.stop ∧
        state.emptyAt = some (choice.moved window.offset).found.start
  · obtain ⟨style, styled⟩ := good.known.style wellFormed
    rw [matchMove_of_again again]
    refine ⟨_, forcedMove_eq held styled searches, stride_of_forced good inside style, ?_⟩
    intro token member _
    cases member
    have four := held.utf8.next_le_add_four good.boundary inside
    exact four.trans (Nat.add_le_add_left (le_max_right _ _) _)
  · obtain ⟨kind, style, captures, stack, stackKnown, moved, -⟩ :=
      matchMove_eq wellFormed good there again
    rw [Choice.found_moved] at moved again
    have starts : (choice.found.moved window.offset).start = state.position := by
      show choice.found.start + window.offset = _
      omega
    have ends : (choice.found.moved window.offset).stop = window.offset + choice.found.stop :=
      Nat.add_comm _ _
    have orderedMoved : (choice.found.moved window.offset).start ≤
        (choice.found.moved window.offset).stop := Nat.add_le_add_right ordered _
    have stride := (stride_of_match kind style captures good starts orderedMoved (ends ▸ stops)
      stackKnown again).1
    refine ⟨_, moved, stride, fun token member _ => ?_⟩
    obtain ⟨-, tokenStart, tokenStop, -⟩ := Regex.Match.mem_token member
    have := le_max_left longest 4
    omega

end Moves

/-- **A scan always gets on, by moves that are short except over text that nothing matches.** -/
theorem makes_stride (wellFormed : grammar.WellFormed) (bounded : grammar.Bounded longest)
    (held : text.Held) :
    grammar.Makes text fun state move =>
      grammar.Stride text state move ∧ move.Short (max longest 4) := by
  refine ⟨fun isMade => isMade.1, fun {window state} good searches => ?_⟩
  obtain ⟨style, styled⟩ := good.known.style wellFormed
  obtain ⟨choice, chosen, spec⟩ := choose_spec bounded held wellFormed good.known searches
  obtain ⟨-, -, -, searchEnd⟩ := searches.inWindow held
  have plainShort : ∀ stop, Move.Short (max longest 4)
      ⟨some ⟨state.position, stop, style, [], .inner, true⟩, { state with position := stop }⟩ := by
    intro stop token member notPlain
    cases member
    cases notPlain
  cases choice with
  | none =>
    have found := searches.search_eq held chosen fun _ member => nomatch member
    exact ⟨none, found, .none (plainMove_eq styled _)
      ⟨stride_of_plain good searches.stops searches.ordered style, plainShort _⟩⟩
  | some choice =>
    obtain ⟨there, offered⟩ := spec choice rfl
    obtain ⟨stop, covers, -, -, -⟩ := searches.covers held
    obtain ⟨behind, before, boundary⟩ := searches.place held offered.behind offered.before
      offered.starts
    have stops := ((covers.isBoundary _).mp offered.stops).2
    have inText := Text.le_size_of_isBoundary stops
    refine ⟨some choice, searches.search_eq held chosen fun winner member => ?_, ?_⟩
    · cases member
      exact ⟨offered.ordered, inText⟩
    rcases behind.lt_or_eq with ahead | same
    · -- The text before the match is a move of its own.
      have stride := stride_of_plain good boundary ahead style
      obtain ⟨move, moved, strideOver, short⟩ := matchMove_stride wellFormed held stride.good
        (searches.later behind before boundary) there rfl offered.ordered stops offered.short
      exact .ahead ahead (plainMove_eq styled _) ⟨stride, plainShort _⟩ rfl moved
        ⟨strideOver, short⟩
    · obtain ⟨move, moved, stride, short⟩ := matchMove_stride wellFormed held good searches there
        same.symm offered.ordered stops offered.short
      exact .here same.symm moved ⟨stride, short⟩

end Grammar

end Highlight
