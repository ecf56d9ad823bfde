/-
**The match that a scan uses next wins over all others.**

A scan finds its next match by two searches, the second of which stops at what the first one found.
One could as well ask everything that may match, at every place of the window, and let the rules
decide. Of a regex it is only asked that it matches where it is tried and does the same wherever the
search began:

* `Grammar.contend`: what the end of a region, or a child of it, matches at a place;
* `Grammar.Candidate`, `Grammar.Wins`: the matches that compete in a window, and the one that wins;
* `Grammar.members_eq`: the children of a pattern that are searched for are all of them, in their
  order, if their regexes form a set, which they do in a grammar that has been compiled;
* `Grammar.choose_wins`: **a scan uses the match that wins**, and none exactly if none competes. It
  would use the same one if it looked for children behind the closing match, too.
-/

import Highlight.Proofs.Grammar.Compile
import Highlight.Proofs.Scan.Lawful

namespace Highlight

/-! ### What is asked of regexes -/

namespace Regex

namespace Matcher

/-- A regex matches where it is tried, and the same wherever the search began. -/
def Anchored (matcher : Matcher) : Prop :=
  ∀ {subject : Text} {origin position : Nat} {flags : SearchFlags}, subject.Held →
    origin ≤ position → position < subject.size → subject.isBoundary origin = true →
      subject.isBoundary position = true →
        matcher.attempt subject origin position flags =
            matcher.attempt subject position position flags ∧
          ∀ found ∈ matcher.attempt subject position position flags, found.start = position

theorem anchored_ofCharacter (byte : UInt8) : (ofCharacter byte).Anchored := by
  intro subject origin position flags held earlier inside starts boundary
  refine ⟨rfl, fun found here => ?_⟩
  unfold ofCharacter at here
  simp only at here
  split at here
  · cases here
    rfl
  · cases here

end Matcher

/-- Regexes that form a set can all be members of it. -/
theorem exists_member_of_setError? {engine : Engine} {regexes : List Regex}
    (forms : engine.setError? regexes = none) :
    ∀ regex ∈ regexes, ∃ matcher, regex.member = .ok matcher := by
  intro regex member
  have none := Engine.setError?_eq_none_iff.mp forms regex member
  unfold memberError? at none
  split at none
  · rename_i matcher outcome
    exact ⟨matcher, outcome⟩
  · cases none

end Regex

namespace Text

/-- There is one thing that is found first. -/
theorem First.unique {α : Type} {text : Text} {outcome : Nat → Option α} {start stop : Nat}
    {result other : Option α} (first : text.First outcome start stop result)
    (second : text.First outcome start stop other) : result = other := by
  cases first with
  | none quiet =>
    cases second with
    | none => rfl
    | some behind before boundary here =>
      cases (quiet _ behind before boundary).symm.trans here
  | @some place found behind before boundary here quiet =>
    cases second with
    | none quietToo => cases (quietToo _ behind before boundary).symm.trans here
    | @some rival other behindToo beforeToo boundaryToo hereToo quietToo =>
      rcases lt_trichotomy place rival with less | same | greater
      · cases (quietToo place behind less boundary).symm.trans here
      · rw [← here, same, hereToo]
      · cases (quiet rival behindToo greater boundaryToo).symm.trans hereToo

end Text

/-! ### Windows -/

/-- A window shows what is searched from a position on: it begins before it, between characters, and
does not end before the search does. -/
structure Window.Searchable (window : Window) (position : Nat) : Prop where
  held : window.subject.Held
  behind : window.offset ≤ position
  boundary : window.subject.isBoundary (window.relative position) = true
  within : window.searchEnd ≤ window.offset + window.subject.size

theorem Window.Searchable.relative_le {window : Window} {position : Nat}
    (searchable : window.Searchable position) :
    window.relative window.searchEnd ≤ window.subject.size := by
  have := searchable.within
  unfold relative
  omega

/-- The windows of a scan show what it searches. -/
theorem Grammar.Searches.searchable {grammar : Grammar} {text : Text} {window : Window}
    {position : Nat} (searches : grammar.Searches text window position) (held : text.Held) :
    window.Searchable position := by
  obtain ⟨-, boundary, within, searchEnd⟩ := searches.inWindow held
  obtain ⟨stop, -, behind, -, -⟩ := searches.covers held
  exact ⟨searches.held_subject held, behind, boundary, by omega⟩

namespace Grammar

variable {grammar : Grammar} {pattern : Pattern} {window : Window}

/-! ### Sets -/

/-- The regexes that the children of a pattern begin with form a set, for every pattern. -/
def FormsSets (grammar : Grammar) : Prop :=
  ∀ pattern ∈ grammar.patterns, ∀ entry ∈ grammar.openings pattern,
    ∃ matcher, entry.2.member = .ok matcher

/-- **The regexes of a compiled grammar form sets.** -/
theorem formsSets_of_compile {engine : Regex.Engine} {source : Source}
    (compiled : source.compile engine = .ok grammar) : grammar.FormsSets := by
  have forms : grammar.setError? engine = none := by
    unfold Source.compile at compiled
    simp only at compiled
    obtain ⟨_, _, compiled⟩ := Fault.bind_eq_ok.mp compiled
    obtain ⟨_, _, compiled⟩ := Fault.bind_eq_ok.mp compiled
    split at compiled
    · cases compiled
    · rename_i forms
      cases compiled
      exact forms
  intro pattern member entry opens
  unfold setError? at forms
  have formsHere := List.findSome?_eq_none_iff.mp forms pattern (Array.mem_toList_iff.mpr member)
  exact Regex.exists_member_of_setError? (Option.map_eq_none_iff.mp formsHere) entry.2
    (List.mem_map_of_mem opens)

/-- What a child begins with, if it begins with anything. -/
def opening? (grammar : Grammar) (id : PatternId) : Option Regex.Matcher := do
  let opening ← (← grammar.patterns[id]?).opening
  (← grammar.regexes[opening]?).member.toOption

theorem mapM_eq_filterMap {α β : Type} {step : α → Option β} {items : List α}
    (total : ∀ item ∈ items, ∃ result, step item = some result) :
    items.mapM step = some (items.filterMap step) := by
  induction items with
  | nil => rfl
  | cons item rest ih =>
    obtain ⟨result, here⟩ := total item List.mem_cons_self
    rw [List.mapM_cons, here, ih fun other member => total other (List.mem_cons_of_mem _ member),
      List.filterMap_cons_some here]
    rfl

/-- **All children of a pattern are searched for**, in their order. -/
theorem members_eq (sets : grammar.FormsSets) (member : pattern ∈ grammar.patterns) :
    grammar.members pattern =
      pattern.children.filterMap fun id => (grammar.opening? id).map fun matcher => (id, matcher) := by
  unfold members
  simp only
  rw [mapM_eq_filterMap, Option.getD_some, openings, List.filterMap_filterMap]
  · refine List.filterMap_congr fun id _ => ?_
    unfold opening?
    cases grammar.patterns[id]? with
    | none => rfl
    | some child =>
      simp only [Option.bind_eq_bind, Option.bind_some, Option.bind_assoc, Option.map_bind,
        Option.pure_def, Function.comp_def]
  · intro entry opens
    obtain ⟨matcher, isMember⟩ := sets pattern member entry opens
    refine ⟨(entry.1, matcher), ?_⟩
    rw [isMember]
    rfl

/-! ### Candidates -/

end Grammar

/-- Who may match in a region: its own end, or the child of a number in its list of children. -/
inductive Contender where
  | closing
  | child (number : Nat)
  deriving DecidableEq, Repr

/-- The first contender is used where both match. -/
def Contender.Precedes (closingLast : Bool) : Contender → Contender → Prop
  | .closing, .closing => False
  | .closing, .child _ => closingLast = false
  | .child _, .closing => closingLast = true
  | .child first, .child second => first < second

theorem Contender.Precedes.asymm {closingLast : Bool} {first second : Contender}
    (precedes : first.Precedes closingLast second) : ¬ second.Precedes closingLast first := by
  cases first <;> cases second
  case closing.closing => exact precedes.elim
  case child.child => exact not_lt.mpr (Nat.le_of_lt precedes)
  all_goals
    intro precedesToo
    cases precedes.symm.trans precedesToo

namespace Grammar

variable {grammar : Grammar} {pattern : Pattern} {window : Window} {pushed : Option Text}
  {state : ScanState}

/-- The end of a region at an index of a window, if it repeats what the region remembers. -/
def closingIn (grammar : Grammar) (pattern : Pattern) (pushed : Option Text) (window : Window)
    (index : Nat) : Option Regex.Match := do
  let regex ← grammar.regexes[← pattern.closing]?
  (regex.alone.attempt window.subject index index window.flags).filter
    (repeats pattern pushed window.subject)

/-- What a child begins with at an index of a window. -/
def openingIn (grammar : Grammar) (window : Window) (index : Nat) (id : PatternId) :
    Option Regex.Match := do
  (← grammar.opening? id).attempt window.subject index index window.flags

/-- What a contender matches at an index of a window. -/
def contend (grammar : Grammar) (pattern : Pattern) (pushed : Option Text) (window : Window)
    (index : Nat) : Contender → Option Choice
  | .closing => (grammar.closingIn pattern pushed window index).map .closing
  | .child number => do
    let id ← pattern.children[number]?
    (grammar.openingIn window index id).map (.child id)

/-- A match of a contender that starts between characters in what is still to be searched. -/
structure Candidate (grammar : Grammar) (pattern : Pattern) (window : Window) (state : ScanState)
    (contender : Contender) (choice : Choice) : Prop where
  behind : state.position ≤ window.offset + choice.found.start
  before : window.offset + choice.found.start < window.searchEnd
  boundary : window.subject.isBoundary choice.found.start = true
  here : grammar.contend pattern state.stack.top.pushed window choice.found.start contender =
    some choice

/-- A candidate that no other one starts before, and that goes before the others that start where it
does. -/
structure Wins (grammar : Grammar) (pattern : Pattern) (window : Window) (state : ScanState)
    (contender : Contender) (choice : Choice) : Prop
    extends Candidate grammar pattern window state contender choice where
  first : ∀ other rival, grammar.Candidate pattern window state other rival →
    choice.found.start < rival.found.start ∨ choice.found.start = rival.found.start ∧
      (contender = other ∨ contender.Precedes pattern.closingLast other)

/-- No two candidates win. -/
theorem Wins.unique {contender other : Contender} {choice rival : Choice}
    (wins : grammar.Wins pattern window state contender choice)
    (winsToo : grammar.Wins pattern window state other rival) : choice = rival := by
  have ahead := wins.first other rival winsToo.toCandidate
  have behind := winsToo.first contender choice wins.toCandidate
  obtain ⟨start, goes⟩ := ahead.resolve_left (by omega)
  obtain ⟨-, goesToo⟩ := behind.resolve_left (by omega)
  have same : contender = other := by
    rcases goes with same | precedes
    · exact same
    · exact (goesToo.resolve_right precedes.asymm).symm
  have here := wins.here
  rw [start, same, winsToo.here] at here
  exact (Option.some.inj here).symm

/-! ### Searches -/

theorem closingIn_of_some {closing : RegexId} {regex : Regex} {index : Nat}
    (closes : pattern.closing = some closing) (compiled : grammar.regexes[closing]? = some regex) :
    grammar.closingIn pattern pushed window index =
      (regex.alone.attempt window.subject index index window.flags).filter
        (repeats pattern pushed window.subject) := by
  unfold closingIn
  rw [closes]
  show (grammar.regexes[closing]?.bind fun regex => _) = _
  rw [compiled]
  rfl

/-- The children in their order, up to the first one that matches at an index of a window. -/
def firstOpening (grammar : Grammar) (pattern : Pattern) (window : Window) (index : Nat) :
    Option (PatternId × Regex.Match) :=
  pattern.children.findSome? fun id => (grammar.openingIn window index id).map fun found => (id, found)

theorem findSome?_filterMap {α β γ : Type} {step : α → Option β} {further : β → Option γ}
    {items : List α} :
    (items.filterMap step).findSome? further = items.findSome? fun item => (step item).bind further := by
  rw [← List.head?_filterMap, ← List.head?_filterMap, List.filterMap_filterMap]

theorem AllMatchers.opening? {asked : Regex.Matcher → Prop} (all : grammar.AllMatchers asked)
    {id : PatternId} {matcher : Regex.Matcher} (opens : grammar.opening? id = some matcher) :
    asked matcher := by
  unfold Grammar.opening? at opens
  obtain ⟨child, known, opens⟩ := Option.bind_eq_some_iff.mp opens
  obtain ⟨opening, isOpening, opens⟩ := Option.bind_eq_some_iff.mp opens
  obtain ⟨regex, compiled, opens⟩ := Option.bind_eq_some_iff.mp opens
  cases outcome : regex.member with
  | error error =>
    rw [outcome] at opens
    cases opens
  | ok found =>
    rw [outcome] at opens
    cases opens
    exact all.opening child (Array.mem_of_getElem? known) opening isOpening regex matcher compiled
      outcome

section Searches

variable {position : Nat}
  (anchored : grammar.AllMatchers fun matcher => matcher.Anchored)
  (member : pattern ∈ grammar.patterns) (searchable : window.Searchable position)
include anchored member searchable

/-- What a region ends with starts where it is looked for. -/
theorem closingIn_start {index : Nat} (before : index < window.relative window.searchEnd)
    (boundary : window.subject.isBoundary index = true) {found : Regex.Match}
    (here : grammar.closingIn pattern pushed window index = some found) : found.start = index := by
  unfold closingIn at here
  obtain ⟨closing, closes, here⟩ := Option.bind_eq_some_iff.mp here
  obtain ⟨regex, compiled, here⟩ := Option.bind_eq_some_iff.mp here
  have inside := before.trans_le searchable.relative_le
  exact (anchored.closing pattern member closing closes regex compiled searchable.held le_rfl inside
    boundary boundary).2 found (Option.filter_eq_some_iff.mp here).1

omit member in
/-- What a child begins with is the same wherever the search began. -/
theorem attempt_eq_openingIn {index : Nat} (behind : window.relative position ≤ index)
    (before : index < window.relative window.searchEnd)
    (boundary : window.subject.isBoundary index = true) {id : PatternId} {matcher : Regex.Matcher}
    (opens : grammar.opening? id = some matcher) :
    matcher.attempt window.subject (window.relative position) index window.flags =
      grammar.openingIn window index id := by
  unfold openingIn
  rw [opens]
  exact (anchored.opening? opens searchable.held behind (before.trans_le searchable.relative_le)
    searchable.boundary boundary).1

omit member in
/-- What the first child begins with starts where it is looked for. -/
theorem firstOpening_start {index : Nat} (before : index < window.relative window.searchEnd)
    (boundary : window.subject.isBoundary index = true) {id : PatternId} {found : Regex.Match}
    (here : grammar.firstOpening pattern window index = some (id, found)) : found.start = index := by
  obtain ⟨other, -, opens⟩ := List.exists_of_findSome?_eq_some here
  obtain ⟨matched, opens, same⟩ := Option.map_eq_some_iff.mp opens
  cases same
  unfold openingIn at opens
  obtain ⟨matcher, isOpening, attempted⟩ := Option.bind_eq_some_iff.mp opens
  exact (anchored.opening? isOpening searchable.held le_rfl (before.trans_le searchable.relative_le)
    boundary boundary).2 found attempted

/-- The search for the end of a region finds the first one there is. -/
theorem closing?_searched (wellFormed : grammar.WellFormed) (pushed : Option Text) :
    ∃ ending, grammar.closing? pattern pushed window position = .ok ending ∧
      window.subject.First (grammar.closingIn pattern pushed window) (window.relative position)
        (window.relative window.searchEnd) ending := by
  unfold closing?
  cases closes : pattern.closing with
  | none =>
    refine ⟨none, rfl, .none fun place _ _ _ => ?_⟩
    unfold closingIn
    rw [closes]
    rfl
  | some closing =>
    have known := wellFormed.closing pattern member closing closes
    have compiled : grammar.regexes[closing]? = some grammar.regexes[closing] :=
      Array.getElem?_eq_getElem known
    have attempted : grammar.regexes[closing].alone.Anchored :=
      anchored.closing pattern member closing closes _ compiled
    generalize grammar.regexes[closing] = regex at compiled attempted
    have within := searchable.relative_le
    have free : ∀ origin index, window.relative position ≤ origin →
        window.subject.isBoundary origin = true → origin ≤ index →
        index < window.relative window.searchEnd → window.subject.isBoundary index = true →
        regex.alone.attempt window.subject origin index window.flags =
          regex.alone.attempt window.subject index index window.flags :=
      fun origin index _ starts earlier before boundary =>
        (attempted searchable.held earlier (before.trans_le within) starts boundary).1
    have starts : ∀ index found, window.relative position ≤ index →
        index < window.relative window.searchEnd → window.subject.isBoundary index = true →
        regex.alone.attempt window.subject index index window.flags = some found →
        found.start = index :=
      fun index found _ before boundary =>
        (attempted searchable.held le_rfl (before.trans_le within) boundary boundary).2 found
    obtain ⟨offers, went, first⟩ := Regex.Matcher.findAt_first
      (repeats pattern pushed window.subject) [] searchable.held.utf8 within searchable.boundary free
      starts
    refine ⟨offers.accepted, ?_, first.congr fun index _ _ _ =>
      (closingIn_of_some closes compiled).symm⟩
    simp only [Grammar.regex, compiled, Fault.bind_eq_ok]
    exact ⟨_, rfl, offers, went, rfl⟩

/-- The search for a child, as far as it goes, finds the first one there is. -/
theorem child?_searched (sets : grammar.FormsSets) (ending : Option Regex.Match) :
    window.subject.First (grammar.firstOpening pattern window) (window.relative position)
      (childLimit ending (window.relative window.searchEnd))
      (grammar.child? pattern window position ending) := by
  have asked : ∀ index, window.relative position ≤ index →
      index < window.relative window.searchEnd → window.subject.isBoundary index = true →
        grammar.childIn pattern window position index = grammar.firstOpening pattern window index := by
    intro index behind before boundary
    unfold childIn firstOpening
    rw [members_eq sets member, findSome?_filterMap]
    refine findSome?_congr fun id _ => ?_
    cases opens : grammar.opening? id with
    | none =>
      unfold openingIn
      rw [opens]
      rfl
    | some matcher =>
      rw [← attempt_eq_openingIn anchored searchable behind before boundary opens]
      rfl
  have starts : ∀ index id found, window.relative position ≤ index →
      index < window.relative window.searchEnd → window.subject.isBoundary index = true →
        grammar.childIn pattern window position index = some (id, found) → found.start = index := by
    intro index id found behind before boundary here
    rw [asked index behind before boundary] at here
    exact firstOpening_start anchored searchable before boundary here
  have limit := childLimit_le ending (window.relative window.searchEnd)
  exact (grammar.child?_firstIn pattern ending searchable.held.utf8 searchable.boundary
    searchable.relative_le starts).congr fun index behind before boundary =>
      asked index behind (before.trans_le limit) boundary

end Searches

/-! ### The winner -/

/-- What is used at an index of a window. -/
def choiceIn (grammar : Grammar) (pattern : Pattern) (pushed : Option Text) (window : Window)
    (index : Nat) : Option Choice :=
  Choice.between pattern.closingLast (grammar.closingIn pattern pushed window index)
    (grammar.firstOpening pattern window index)

section Contenders

variable {index : Nat}

theorem contend_closing_eq_some {choice : Choice} :
    grammar.contend pattern pushed window index .closing = some choice ↔
      ∃ found, grammar.closingIn pattern pushed window index = some found ∧
        .closing found = choice :=
  Option.map_eq_some_iff

theorem contend_child_eq_some {number : Nat} {choice : Choice} :
    grammar.contend pattern pushed window index (.child number) = some choice ↔
      ∃ id, pattern.children[number]? = some id ∧
        ∃ found, grammar.openingIn window index id = some found ∧ .child id found = choice := by
  unfold contend
  simp only [Option.bind_eq_bind, Option.bind_eq_some_iff, Option.map_eq_some_iff]

/-- The child that is found matches, and none in the list before it does. -/
theorem exists_of_firstOpening {id : PatternId} {found : Regex.Match}
    (here : grammar.firstOpening pattern window index = some (id, found)) :
    ∃ number, grammar.contend pattern pushed window index (.child number) = some (.child id found) ∧
      ∀ earlier < number, grammar.contend pattern pushed window index (.child earlier) = none := by
  obtain ⟨before, other, after, children, opens, none⟩ := List.findSome?_eq_some_iff.mp here
  obtain ⟨matched, opens, same⟩ := Option.map_eq_some_iff.mp opens
  cases same
  refine ⟨before.length, contend_child_eq_some.mpr ⟨id, ?_, found, opens, rfl⟩, fun earlier less => ?_⟩
  · rw [children, List.getElem?_append_right le_rfl, Nat.sub_self]
    rfl
  · refine Option.eq_none_iff_forall_not_mem.mpr fun choice there => ?_
    obtain ⟨number, listed, matched, opensToo, -⟩ := contend_child_eq_some.mp there
    rw [children, List.getElem?_append_left less] at listed
    have missing := none number (List.mem_of_getElem? listed)
    rw [opensToo] at missing
    cases missing

/-- Where no child is found none matches. -/
theorem firstOpening_ne_none {number : Nat} {choice : Choice}
    (there : grammar.contend pattern pushed window index (.child number) = some choice) :
    grammar.firstOpening pattern window index ≠ none := by
  obtain ⟨id, listed, found, opens, -⟩ := contend_child_eq_some.mp there
  intro missing
  have missing := List.findSome?_eq_none_iff.mp missing id (List.mem_of_getElem? listed)
  rw [opens] at missing
  cases missing

/-- Where nothing is used no contender matches. -/
theorem contend_of_choiceIn (missing : grammar.choiceIn pattern pushed window index = none)
    (contender : Contender) : grammar.contend pattern pushed window index contender = none := by
  obtain ⟨noEnding, noStart⟩ := Choice.between_eq_none.mp missing
  refine Option.eq_none_iff_forall_not_mem.mpr fun choice there => ?_
  cases contender with
  | closing =>
    obtain ⟨found, ends, -⟩ := contend_closing_eq_some.mp there
    cases noEnding.symm.trans ends
  | child number => exact firstOpening_ne_none there noStart

/-- What is used goes before everything else that matches there. -/
theorem exists_of_choiceIn
    (closes : ∀ found, grammar.closingIn pattern pushed window index = some found →
      found.start = index)
    (opens : ∀ id found, grammar.firstOpening pattern window index = some (id, found) →
      found.start = index) {choice : Choice}
    (here : grammar.choiceIn pattern pushed window index = some choice) :
    choice.found.start = index ∧ ∃ contender,
      grammar.contend pattern pushed window index contender = some choice ∧
        ∀ other rival, grammar.contend pattern pushed window index other = some rival →
          contender = other ∨ contender.Precedes pattern.closingLast other := by
  unfold choiceIn at here
  rcases exists_of_between here with ⟨found, ends, rfl⟩ | ⟨id, found, begins, rfl⟩
  · refine ⟨closes found ends, .closing, contend_closing_eq_some.mpr ⟨found, ends, rfl⟩, ?_⟩
    intro other rival there
    cases other with
    | closing => exact Or.inl rfl
    | child number =>
      obtain ⟨⟨id, start⟩, begins⟩ := Option.ne_none_iff_exists'.mp (firstOpening_ne_none there)
      have tie : start.start = found.start := (opens id start begins).trans (closes found ends).symm
      rw [ends, begins, Choice.between_of_tie tie] at here
      refine Or.inr (Bool.eq_false_iff.mpr fun last => ?_)
      rw [if_pos last] at here
      cases here
  · obtain ⟨number, matched, first⟩ := exists_of_firstOpening begins
    refine ⟨opens id found begins, .child number, matched, fun other rival there => ?_⟩
    cases other with
    | closing =>
      obtain ⟨ending, ends, -⟩ := contend_closing_eq_some.mp there
      have tie : found.start = ending.start := (opens id found begins).trans (closes ending ends).symm
      rw [ends, begins, Choice.between_of_tie tie] at here
      refine Or.inr (Bool.eq_true_of_not_eq_false fun last => ?_)
      rw [last] at here
      cases here
    | child rank =>
      rcases lt_trichotomy number rank with before | same | behind
      · exact Or.inr before
      · exact Or.inl (congrArg _ same)
      · cases (first rank behind).symm.trans there

end Contenders

section Winner

variable (anchored : grammar.AllMatchers fun matcher => matcher.Anchored)
  (member : pattern ∈ grammar.patterns) (searchable : window.Searchable state.position)
include anchored member searchable

/-- What is used first in a window is the candidate that wins. -/
theorem wins_of_first {choice : Option Choice}
    (first : window.subject.First (grammar.choiceIn pattern state.stack.top.pushed window)
      (window.relative state.position) (window.relative window.searchEnd) choice) :
    (choice = none → ∀ contender rival, ¬ grammar.Candidate pattern window state contender rival) ∧
      ∀ winner ∈ choice, ∃ contender, grammar.Wins pattern window state contender winner := by
  have offset := searchable.behind
  -- Nothing competes in a range where nothing is used.
  have quiets : ∀ stop, window.subject.Quiet
      (grammar.choiceIn pattern state.stack.top.pushed window) (window.relative state.position) stop →
      ∀ contender rival, grammar.Candidate pattern window state contender rival →
        stop ≤ rival.found.start := by
    intro stop quiet contender rival candidate
    by_contra before
    have behind := candidate.behind
    have missing := contend_of_choiceIn (quiet rival.found.start (by unfold Window.relative; omega)
      (not_le.mp before) candidate.boundary) contender
    cases missing.symm.trans candidate.here
  cases first with
  | none quiet =>
    refine ⟨fun _ contender rival candidate => ?_, fun winner there => nomatch there⟩
    have before := candidate.before
    have behind := quiets _ quiet contender rival candidate
    unfold Window.relative at behind
    omega
  | @some place winner behind before boundary here quiet =>
    refine ⟨(fun missing => nomatch missing), fun other there => ?_⟩
    cases there
    obtain ⟨start, contender, matched, goes⟩ := exists_of_choiceIn
      (fun found ends => closingIn_start anchored member searchable before boundary ends)
      (fun id found begins => firstOpening_start anchored searchable before boundary begins) here
    unfold Window.relative at behind before
    refine ⟨contender, ⟨⟨by omega, by omega, start.symm ▸ boundary, start.symm ▸ matched⟩, ?_⟩⟩
    intro other rival candidate
    rcases (quiets place quiet other rival candidate).lt_or_eq with later | same
    · exact Or.inl (start.trans_lt later)
    · exact Or.inr ⟨start.trans same, goes other rival (same ▸ candidate.here)⟩

/-- However far behind the closing match children are looked for, what a scan finds is what is used
first in the window. -/
theorem choose_searched (wellFormed : grammar.WellFormed) (sets : grammar.FormsSets)
    (top : grammar.pattern state.stack.top.pattern = .ok pattern) :
    ∃ ending,
      grammar.closing? pattern state.stack.top.pushed window state.position = .ok ending ∧
        grammar.choose window state = .ok (Choice.between pattern.closingLast ending
          (grammar.child? pattern window state.position ending)) ∧
        ∀ limit, childLimit ending (window.relative window.searchEnd) ≤
            childLimit limit (window.relative window.searchEnd) →
          window.subject.First (grammar.choiceIn pattern state.stack.top.pushed window)
            (window.relative state.position) (window.relative window.searchEnd)
            (Choice.between pattern.closingLast ending
              (grammar.child? pattern window state.position limit)) := by
  obtain ⟨ending, closes, closing⟩ :=
    closing?_searched anchored member searchable wellFormed state.stack.top.pushed
  refine ⟨ending, closes, ?_, fun limit further => ?_⟩
  · unfold choose
    simp only [Fault.bind_eq_ok]
    exact ⟨pattern, top, ending, closes, rfl⟩
  · exact first_between
      (fun index found before boundary => closingIn_start anchored member searchable before boundary)
      (fun index id found before boundary => firstOpening_start anchored searchable before boundary)
      further (childLimit_le limit _) closing
      (child?_searched anchored member searchable sets limit) pattern.closingLast

end Winner

/-- **A scan uses the candidate that wins**, and nothing exactly if there is no candidate. Looking for
children no further than the closing match neither loses nor changes the winner. -/
theorem choose_wins (wellFormed : grammar.WellFormed) (sets : grammar.FormsSets)
    (anchored : grammar.AllMatchers fun matcher => matcher.Anchored)
    (top : grammar.pattern state.stack.top.pattern = .ok pattern)
    (searchable : window.Searchable state.position) :
    ∃ choice, grammar.choose window state = .ok choice ∧
      (choice = none ↔
        ∀ contender rival, ¬ grammar.Candidate pattern window state contender rival) ∧
      (∀ winner, choice = some winner ↔
        ∃ contender, grammar.Wins pattern window state contender winner) ∧
      ∃ ending, grammar.closing? pattern state.stack.top.pushed window state.position = .ok ending ∧
        choice = Choice.between pattern.closingLast ending
          (grammar.child? pattern window state.position none) := by
  have member := mem_of_pattern top
  obtain ⟨ending, closes, chosen, first⟩ :=
    choose_searched anchored member searchable wellFormed sets top
  have searched := first ending le_rfl
  have unclipped := searched.unique (first none (childLimit_le ending _))
  obtain ⟨quiet, wins⟩ := wins_of_first anchored member searchable searched
  refine ⟨_, chosen, ⟨quiet, fun noCandidate => ?_⟩, fun winner => ⟨wins winner, ?_⟩, ending, closes,
    unclipped⟩
  · refine Option.eq_none_iff_forall_not_mem.mpr fun winner there => ?_
    obtain ⟨contender, won⟩ := wins winner there
    exact noCandidate contender winner won.toCandidate
  · rintro ⟨contender, won⟩
    cases outcome : Choice.between pattern.closingLast ending
        (grammar.child? pattern window state.position ending) with
    | none => exact absurd won.toCandidate (quiet outcome contender winner)
    | some other =>
      obtain ⟨rival, wonToo⟩ := wins other outcome
      rw [won.unique wonToo]

theorem formsSets_brackets : brackets.FormsSets := by
  intro pattern _ entry opens
  unfold openings at opens
  obtain ⟨id, -, here⟩ := List.mem_filterMap.mp opens
  obtain ⟨child, -, here⟩ := Option.bind_eq_some_iff.mp here
  obtain ⟨opening, -, here⟩ := Option.bind_eq_some_iff.mp here
  obtain ⟨regex, compiled, same⟩ := Option.bind_eq_some_iff.mp here
  cases same
  obtain ⟨source, byte, rfl⟩ := regex_of_brackets compiled
  exact ⟨_, rfl⟩

/-- Inside of the first bracket the second one opens before a bracket closes. -/
theorem choose_wins_brackets :
    let window := Window.whole (.ofString "(b(c))")
    let state := ScanState.startingAt 1 ⟨[⟨1, none⟩]⟩
    brackets.WellFormed ∧ brackets.FormsSets ∧
      (brackets.AllMatchers fun matcher => matcher.Anchored) ∧
      window.Searchable state.position ∧ ∃ pattern,
        brackets.pattern state.stack.top.pattern = .ok pattern ∧
        brackets.choose window state = .ok (some (.child 1 ⟨2, 3, [some (2, 3)]⟩)) ∧
        (∃ contender,
          brackets.Wins pattern window state contender (.child 1 ⟨2, 3, [some (2, 3)]⟩)) ∧
        brackets.Candidate pattern window state .closing (.closing ⟨4, 5, [some (4, 5)]⟩) := by
  intro window state
  have anchored : brackets.AllMatchers fun matcher => matcher.Anchored :=
    allMatchers_brackets fun byte => Regex.Matcher.anchored_ofCharacter byte
  have searchable : window.Searchable state.position :=
    ⟨⟨Text.isUtf8_ofString _, by decide⟩, by decide, by decide, by decide⟩
  have top : brackets.pattern state.stack.top.pattern = .ok brackets.patterns[1] := rfl
  obtain ⟨choice, chosen, -, wins, -⟩ :=
    choose_wins wellFormed_brackets formsSets_brackets anchored top searchable
  have found : brackets.choose window state = .ok (some (.child 1 ⟨2, 3, [some (2, 3)]⟩)) := by
    decide +kernel
  cases chosen.symm.trans found
  exact ⟨wellFormed_brackets, formsSets_brackets, anchored, searchable, _, top, found,
    (wins _).mp rfl, by decide, by decide, by decide, by decide +kernel⟩

end Grammar

end Highlight
