/-
**Compiling the rules of a source, one after the other.**

A rule gets a number, then what it says of itself is compiled, then the rules in it; with that its pattern
is filled in, among those of all rules that have got numbers in the meantime.

* `Compiler.ownRegexes_eq_ok`, `Compiler.pattern_eq_ok`: what the steps of compiling a rule did that went
  well;
* `Compiler.Builds`: the rules that get numbers, compiled in the order of their numbers;
  `Compiler.builds_of_written`: **compiling a source goes through all of them**;
* `Compiler.Indexed`: every number that has been handed out is there, as a number cut to the numbers there
  are; `Compiler.Builds.indexed`: **compiling keeps it so**.
-/

import Mathlib.Data.List.Forall2
import Highlight.Proofs.Grammar.Numbering

namespace Highlight.Grammar

variable {engine : Regex.Engine}

namespace Head

/-- The regex that a pattern of the rule begins with. -/
def opens (head : Head) : Option String := head.single.or head.opening

/-- The regexes of the rule, in the order in which they are compiled. -/
def texts (head : Head) : List String := head.opens.toList ++ head.closing.toList

/-- Whether the rule is of no kind: it says where a region ends but not where it begins, or both what a
single match is and what a region begins with. -/
def isMixed (head : Head) : Bool :=
  head.closing.isSome && head.opening.isNone || head.single.isSome && head.opening.isSome

/-- The names of the styles of groups of the opening match. -/
def openingTable (head : Head) : List (String × String) :=
  if head.openingCaptures.isEmpty then head.captures else head.openingCaptures

/-- The names of the styles of groups of the closing match. -/
def closingTable (head : Head) : List (String × String) :=
  if head.closingCaptures.isEmpty then head.captures else head.closingCaptures

/-- A rule of some kind that ends a region begins one. -/
theorem exists_opens {head : Head} (kind : head.isMixed = false) {text : String}
    (closes : head.closing = some text) : ∃ other, head.opens = some other := by
  unfold isMixed at kind
  unfold opens
  rw [closes] at kind
  cases first : head.opening with
  | none =>
    rw [first] at kind
    cases kind
  | some other => cases head.single <;> exact ⟨_, rfl⟩

end Head

namespace Compiler

variable {before after : Compiler} {id : PatternId} {head : Head}

/-- A regex gets the number of its place, cut to the numbers there are. -/
theorem regex_eq_ok {text : String} {number : RegexId}
    (went : regex engine text before = .ok (number, after)) :
    number = before.regexes.size % idRange ∧ ∃ compiled, engine.compile text = .ok compiled ∧
      after = { before with regexes := before.regexes.push compiled } := by
  unfold regex at went
  cases compiles : engine.compile text with
  | error error =>
    rw [compiles] at went
    cases went
  | ok compiled =>
    rw [compiles] at went
    cases went
    exact ⟨rfl, compiled, rfl, rfl⟩

/-- The regexes of a rule that is of some kind are compiled one after the other. -/
theorem ownRegexes_eq_ok {opening closing : Option RegexId}
    (went : ownRegexes engine id head before = .ok ((opening, closing), after)) :
    head.isMixed = false ∧
      opening = head.opens.map (fun _ => before.regexes.size % idRange) ∧
      closing = head.closing.map (fun _ => (before.regexes.size + 1) % idRange) ∧
      ∃ compiled, List.Forall₂ (fun text regex => engine.compile text = .ok regex) head.texts compiled ∧
        after = { before with regexes := before.regexes ++ compiled.toArray } := by
  unfold ownRegexes at went
  unfold Head.isMixed Head.texts Head.opens
  cases single : head.single <;> cases first : head.opening <;> cases last : head.closing <;>
    simp only [single, first, last] at went
  case none.none.none =>
    cases went
    exact ⟨rfl, rfl, rfl, [], .nil, rfl⟩
  case none.some.none =>
    obtain ⟨regex, middle, compiled, done⟩ := bind_eq_ok.mp went
    cases done
    obtain ⟨rfl, made, compiles, rfl⟩ := regex_eq_ok compiled
    exact ⟨rfl, rfl, rfl, [made], .cons compiles .nil, by simp⟩
  case some.none.none =>
    obtain ⟨regex, middle, compiled, done⟩ := bind_eq_ok.mp went
    cases done
    obtain ⟨rfl, made, compiles, rfl⟩ := regex_eq_ok compiled
    exact ⟨rfl, rfl, rfl, [made], .cons compiles .nil, by simp⟩
  case none.some.some =>
    obtain ⟨regex, middle, compiled, went⟩ := bind_eq_ok.mp went
    obtain ⟨other, further, compiledToo, done⟩ := bind_eq_ok.mp went
    cases done
    obtain ⟨rfl, made, compiles, rfl⟩ := regex_eq_ok compiled
    obtain ⟨rfl, madeToo, compilesToo, rfl⟩ := regex_eq_ok compiledToo
    have both : (before.regexes.push made).push madeToo = before.regexes ++ #[made, madeToo] :=
      Array.toList_inj.mp (by simp)
    refine ⟨rfl, rfl, ?_, [made, madeToo], .cons compiles (.cons compilesToo .nil), by rw [← both]⟩
    rw [Array.size_push]
    rfl
  all_goals cases went

/-- The regexes of a rule are there. -/
theorem ownRegexes_inside {opening closing : Option RegexId}
    (went : ownRegexes engine id head before = .ok ((opening, closing), after)) {regex : RegexId}
    (own : regex ∈ opening ∨ regex ∈ closing) : regex < after.regexes.size := by
  obtain ⟨kind, rfl, rfl, compiled, compiles, rfl⟩ := ownRegexes_eq_ok went
  have length := compiles.length_eq
  unfold Head.texts at length
  simp only [Array.size_append, List.size_toArray]
  rcases own with own | own
  · obtain ⟨text, opens, rfl⟩ := Option.mem_map.mp own
    rw [Option.mem_def] at opens
    rw [opens, List.length_append, Option.toList_some, List.length_singleton] at length
    refine (Nat.mod_le _ _).trans_lt ?_
    omega
  · obtain ⟨text, closes, rfl⟩ := Option.mem_map.mp own
    obtain ⟨other, opens⟩ := Head.exists_opens kind closes
    rw [Option.mem_def] at closes
    rw [opens, closes, Option.toList_some, Option.toList_some, List.length_append,
      List.length_singleton, List.length_singleton] at length
    refine (Nat.mod_le _ _).trans_lt ?_
    omega

/-- A pattern is made of the style that the rule names, its regexes and the styles of its groups. -/
theorem pattern_eq_ok {complete : Pattern → Pattern}
    (went : pattern engine id head before = .ok (complete, after)) :
    ∃ styleId named opening closing compiled openingCaptures opened closingCaptures,
      head.name.mapM style before = .ok (styleId, named) ∧
      ownRegexes engine id head named = .ok ((opening, closing), compiled) ∧
      captures head.openingTable compiled = .ok (openingCaptures, opened) ∧
      captures head.closingTable opened = .ok (closingCaptures, after) ∧
      complete = fun blank => { blank with
        style := styleId
        opening := opening
        closing := closing
        openingCaptures := openingCaptures
        closingCaptures := closingCaptures
        pushCapture := head.pushCapture
        endCapture := head.endCapture
        closingLast := head.closingLast } := by
  unfold pattern at went
  obtain ⟨styleId, named, styled, went⟩ := bind_eq_ok.mp went
  obtain ⟨⟨opening, closing⟩, compiled, own, went⟩ := bind_eq_ok.mp went
  obtain ⟨openingCaptures, opened, captured, went⟩ := bind_eq_ok.mp went
  obtain ⟨closingCaptures, closed, capturedToo, done⟩ := bind_eq_ok.mp went
  cases done
  exact ⟨styleId, named, opening, closing, compiled, openingCaptures, opened, closingCaptures,
    styled, own, captured, capturedToo, rfl⟩

/-- A pattern keeps its number when it is completed, and its regexes are there. -/
theorem pattern_inside {complete : Pattern → Pattern}
    (went : pattern engine id head before = .ok (complete, after)) :
    (∀ blank, (complete blank).id = blank.id) ∧ ∀ blank, ∀ regex,
      regex ∈ (complete blank).opening ∨ regex ∈ (complete blank).closing →
        regex < after.regexes.size := by
  obtain ⟨styleId, named, opening, closing, compiled, openingCaptures, opened, closingCaptures,
    styled, own, captured, capturedToo, rfl⟩ := pattern_eq_ok went
  refine ⟨fun blank => rfl, fun blank regex isOwn => (ownRegexes_inside own isOwn).trans_le ?_⟩
  exact (captures_interns captured).regexes.trans (captures_interns capturedToo).regexes

/-- Rules are compiled in the order of their numbers, each one being filled in when the rules in it have
been compiled. -/
inductive Builds (engine : Regex.Engine) : List Rule → Compiler → List ChildRef → Compiler → Prop where
  | nil {compiler : Compiler} : Builds engine [] compiler [] compiler
  | named {listed : List Rule} {before after : Compiler} {others : List ChildRef} (name : String)
      (behind : Builds engine listed before others after) :
      Builds engine listed before (.include name :: others) after
  | entry {listed : List Rule} {before after : Compiler} {others : List ChildRef} {name : String}
      {id : PatternId} (inside : id < before.patterns.size)
      (behind : Builds engine listed { before with repository := before.repository ++ [(name, id)] } others
        after) : Builds engine listed before others after
  | rule {head : Head} {rules inner rest : List Rule} {id : PatternId}
      {complete : Pattern → Pattern} {children others : List ChildRef}
      {before reserved described filled after : Compiler}
      (reserves : reserve head before = .ok (id, reserved))
      (describes : pattern engine id head reserved = .ok (complete, described))
      (inside : Builds engine inner described children filled)
      (includes : ∀ name, .include name ∈ children →
        ∃ first ∈ rules, first.head.reference = some name)
      (behind : Builds engine rest (filled.fill id children complete) others after) :
      Builds engine (⟨head, rules⟩ :: (inner ++ rest)) before (.pattern id :: others) after

theorem Builds.append {front back : List Rule} {middle : Compiler} {first second : List ChildRef}
    (one : Builds engine front before first middle) (other : Builds engine back middle second after) :
    Builds engine (front ++ back) before (first ++ second) after := by
  induction one with
  | nil => exact other
  | named name _ ih => exact .named name (ih other)
  | entry inside _ ih => exact .entry inside (ih other)
  | rule reserves describes inside includes _ _ ih =>
    rw [List.cons_append, List.append_assoc]
    exact .rule reserves describes inside includes (ih other)

/-- What is listed as an include is a rule that is one. -/
theorem reference_of_rules {sources : List Rule} {children : List ChildRef}
    (went : rules engine sources before = .ok (children, after)) {name : String}
    (member : .include name ∈ children) : ∃ first ∈ sources, first.head.reference = some name := by
  induction sources generalizing before children with
  | nil =>
    rw [rules] at went
    cases went
    cases member
  | cons first rest ih =>
    rcases rules_cons_eq_ok went with ⟨other, others, included, rfl, compiles⟩ |
      ⟨id, middle, others, -, rfl, -, compiles⟩
    · rcases List.mem_cons.mp member with same | member
      · cases same
        exact ⟨first, List.mem_cons_self, included⟩
      · obtain ⟨inner, isInner, reference⟩ := ih compiles member
        exact ⟨inner, List.mem_cons_of_mem _ isInner, reference⟩
    · rcases List.mem_cons.mp member with same | member
      · cases same
      · obtain ⟨inner, isInner, reference⟩ := ih compiles member
        exact ⟨inner, List.mem_cons_of_mem _ isInner, reference⟩

mutual

/-- **Compiling a rule compiles the rules that get numbers with it, one after the other.** -/
theorem rule_builds : ∀ (source : Rule) {before after : Compiler} {id : PatternId},
    rule engine source before = .ok (id, after) → Builds engine source.listed before [.pattern id] after
  | ⟨head, inner⟩, before, after, id, went => by
    obtain ⟨reserved, complete, described, children, filled, reserves, describes, compiles, rfl⟩ :=
      rule_eq_ok went
    have builds := rules_build inner compiles
    rw [Rule.listed, ← List.append_nil (Rule.listedAll inner)]
    exact .rule reserves describes builds (fun name => reference_of_rules compiles) .nil

theorem rules_build : ∀ (sources : List Rule) {before after : Compiler} {children : List ChildRef},
    rules engine sources before = .ok (children, after) →
      Builds engine (Rule.listedAll sources) before children after
  | [], before, after, children, went => by
    rw [rules] at went
    cases went
    exact .nil
  | first :: rest, before, after, children, went => by
    rw [Rule.listedAll]
    rcases rules_cons_eq_ok went with ⟨name, others, included, rfl, compiles⟩ |
      ⟨id, middle, others, included, rfl, compiled, compiles⟩
    · rw [included]
      exact .named name (rules_build rest compiles)
    · rw [included]
      exact (rule_builds first compiled).append (rules_build rest compiles)

end

/-! ### Sizes -/

theorem size_reserve {reserved : Compiler} (reserves : reserve head before = .ok (id, reserved)) :
    reserved.patterns.size = before.patterns.size + 1 ∧
      reserved.written.size = before.written.size + 1 := by
  cases reserves
  exact ⟨Array.size_push _, Array.size_push _⟩

variable {listed : List Rule} {children : List ChildRef}

/-- There is a pattern and a list of children for each rule that gets a number. -/
theorem Builds.size (builds : Builds engine listed before children after) :
    after.patterns.size = before.patterns.size + listed.length ∧
      after.written.size = before.written.size + listed.length := by
  induction builds with
  | nil => exact ⟨rfl, rfl⟩
  | named name _ ih => exact ih
  | entry inside _ ih => exact ih
  | @rule head rules inner rest id complete children others before reserved described filled after
      reserves describes inside includes behind ihInside ihBehind =>
    obtain ⟨interns, -⟩ := pattern_interns describes
    obtain ⟨patterns, written⟩ := size_reserve reserves
    rw [← interns.patterns] at patterns
    rw [← interns.written] at written
    simp only [size_patterns_fill, size_written_fill] at ihBehind
    rw [List.length_cons, List.length_append]
    omega

theorem Builds.keeps (builds : Builds engine listed before children after) : Keeps before after := by
  induction builds with
  | nil => exact .refl _
  | named name _ ih => exact ih
  | @entry listed before after others name id inside _ ih =>
    have noted : Keeps before { before with repository := before.repository ++ [(name, id)] } :=
      .of_patterns rfl le_rfl
    exact noted.trans ih
  | @rule head rules inner rest id complete children others before reserved described filled after
      reserves describes inside includes behind ihInside ihBehind =>
    obtain ⟨interns, own⟩ := pattern_interns describes
    obtain ⟨keepsReserved, rfl, size⟩ := reserve_keeps reserves
    have more : before.patterns.size < filled.patterns.size := by
      have := interns.keeps.patterns.trans ihInside.patterns
      omega
    refine Keeps.trans ?_ ihBehind
    exact ((keepsReserved.trans interns.keeps).trans ihInside).complete more children
      fun blank regex closing => ((own blank).1 regex closing).trans_le ihInside.regexes

/-! ### Numbers that are there -/

/-- A pattern that is listed is there, and a name that is listed is one of these. -/
def Lists (names : String → Prop) (size : Nat) : ChildRef → Prop
  | .pattern id => id < size
  | .include name => names name

theorem Lists.mono {names : String → Prop} {size more : Nat} {ref : ChildRef}
    (lists : Lists names size ref) (grows : size ≤ more) : Lists names more ref := by
  cases ref with
  | pattern id => exact lt_of_lt_of_le lists grows
  | «include» name => exact lists

/-- **Every number that compiling looks up is there.** -/
structure Indexed (names : String → Prop) (compiler : Compiler) : Prop where
  paired : compiler.written.size = compiler.patterns.size
  /-- A pattern has the number of its place, cut to the numbers there are. -/
  number : ∀ index pattern, compiler.patterns[index]? = some pattern → pattern.id = index % idRange
  children : ∀ list ∈ compiler.written, ∀ ref ∈ list, Lists names compiler.patterns.size ref
  regexes : ∀ pattern ∈ compiler.patterns, ∀ id, id ∈ pattern.opening ∨ id ∈ pattern.closing →
    id < compiler.regexes.size
  repository : ∀ known ∈ compiler.repository, known.2 < compiler.patterns.size

/-- What is listed for some number is listed. -/
theorem exists_mem_written {compiler : Compiler} {index : Nat} {ref : ChildRef}
    (member : ref ∈ compiler.written.getD index []) : ∃ list ∈ compiler.written, ref ∈ list := by
  rw [Array.getD_eq_getD_getElem?] at member
  cases here : compiler.written[index]? with
  | none =>
    rw [here] at member
    cases member
  | some list =>
    rw [here] at member
    exact ⟨list, Array.mem_of_getElem? here, member⟩

namespace Indexed

variable {names : String → Prop}

theorem interns (indexed : before.Indexed names) (interns : Interns before after) :
    after.Indexed names := by
  obtain ⟨patterns, written, repository, regexes⟩ := interns
  refine ⟨?_, ?_, ?_, ?_, ?_⟩
  · rw [written, patterns]
    exact indexed.paired
  · rw [patterns]
    exact indexed.number
  · rw [written, patterns]
    exact indexed.children
  · rw [patterns]
    exact fun pattern member id own => (indexed.regexes pattern member id own).trans_le regexes
  · rw [repository, patterns]
    exact indexed.repository

theorem reserve (indexed : before.Indexed names)
    (reserves : Compiler.reserve head before = .ok (id, after)) : after.Indexed names := by
  cases reserves
  have size : (before.patterns.push (Pattern.blank (before.patterns.size % idRange)
      (head.maxExtend.getD before.defaultExtend))).size = before.patterns.size + 1 :=
    Array.size_push _
  refine ⟨?_, fun index pattern here => ?_, fun list member ref listed => ?_,
    fun pattern member id own => ?_, fun known member => ?_⟩
  · simp only [Array.size_push, indexed.paired]
  · simp only at here
    rw [Array.getElem?_push] at here
    split at here
    · rename_i last
      cases here
      rw [last]
      rfl
    · exact indexed.number index pattern here
  · simp only [size]
    rcases Array.mem_push.mp member with old | rfl
    · exact (indexed.children list old ref listed).mono (Nat.le_succ _)
    · cases listed
  · rcases Array.mem_push.mp member with old | rfl
    · exact indexed.regexes pattern old id own
    · rcases own with own | own <;> cases own
  · simp only [size]
    exact (indexed.repository known member).trans (Nat.lt_succ_self _)

theorem fill (indexed : before.Indexed names) (id : PatternId) (children : List ChildRef)
    (listed : ∀ ref ∈ children, Lists names before.patterns.size ref)
    {complete : Pattern → Pattern} (number : ∀ blank, (complete blank).id = blank.id)
    (regexes : ∀ blank, ∀ regex, regex ∈ (complete blank).opening ∨ regex ∈ (complete blank).closing →
      regex < before.regexes.size) :
    (before.fill id children complete).Indexed names := by
  have size := size_patterns_fill before id children complete
  refine ⟨?_, fun index pattern here => ?_, fun list member ref isRef => ?_,
    fun pattern member regex own => ?_, fun known member => ?_⟩
  · rw [size, size_written_fill]
    exact indexed.paired
  · rw [getElem?_patterns_fill] at here
    split at here
    · obtain ⟨blank, there, rfl⟩ := Option.map_eq_some_iff.mp here
      rw [number]
      exact indexed.number index blank there
    · exact indexed.number index pattern here
  · rw [size]
    obtain ⟨index, here⟩ := Array.mem_iff_getElem?.mp member
    rw [getElem?_written_fill] at here
    split at here
    · split at here
      · cases here
        exact listed ref isRef
      · cases here
    · exact indexed.children list (Array.mem_of_getElem? here) ref isRef
  · obtain ⟨index, here⟩ := Array.mem_iff_getElem?.mp member
    rw [getElem?_patterns_fill] at here
    split at here
    · obtain ⟨blank, -, rfl⟩ := Option.map_eq_some_iff.mp here
      exact regexes blank regex own
    · exact indexed.regexes pattern (Array.mem_of_getElem? here) regex own
  · rw [size]
    exact indexed.repository known member

end Indexed

/-- **What has been compiled knows all of its numbers**: so does what compiling rules makes of it. -/
theorem Builds.indexed {names : String → Prop} (builds : Builds engine listed before children after)
    (indexed : before.Indexed names)
    (named : ∀ rule ∈ listed, ∀ inner ∈ rule.rules, ∀ name, inner.head.reference = some name →
      names name) :
    after.Indexed names ∧ ∀ id, .pattern id ∈ children → id < after.patterns.size := by
  induction builds with
  | nil => exact ⟨indexed, fun id member => nomatch member⟩
  | named name _ ih =>
    obtain ⟨indexed, inside⟩ := ih indexed named
    refine ⟨indexed, fun id member => inside id ?_⟩
    rcases List.mem_cons.mp member with same | member
    · cases same
    · exact member
  | entry inside _ ih =>
    refine ih ⟨indexed.paired, indexed.number, indexed.children, indexed.regexes, ?_⟩ named
    intro known member
    rcases List.mem_append.mp member with old | new
    · exact indexed.repository known old
    · rw [List.mem_singleton.mp new]
      exact inside
  | @rule head rules inner rest id complete children others before reserved described filled after
      reserves describes builds includes behind ihInside ihBehind =>
    have front := (indexed.reserve reserves).interns (pattern_interns describes).1
    obtain ⟨indexedInside, inside⟩ := ihInside front fun rule member =>
      named rule (List.mem_cons_of_mem _ (List.mem_append_left _ member))
    have lists : ∀ ref ∈ children, Lists names filled.patterns.size ref := by
      intro ref member
      cases ref with
      | pattern id => exact inside id member
      | «include» name =>
        obtain ⟨first, isFirst, reference⟩ := includes name member
        exact named _ List.mem_cons_self first isFirst name reference
    obtain ⟨sameNumber, regexes⟩ := pattern_inside describes
    have filledIndexed := indexedInside.fill id children lists sameNumber
      fun blank regex own => (regexes blank regex own).trans_le builds.keeps.regexes
    obtain ⟨indexedBehind, insideBehind⟩ := ihBehind filledIndexed fun rule member =>
      named rule (List.mem_cons_of_mem _ (List.mem_append_right _ member))
    refine ⟨indexedBehind, fun other member => ?_⟩
    rcases List.mem_cons.mp member with same | member
    · cases same
      obtain ⟨-, rfl, size⟩ := reserve_keeps reserves
      have more := (pattern_interns describes).1.keeps.patterns.trans builds.keeps.patterns
      have further : filled.patterns.size ≤ after.patterns.size :=
        (size_patterns_fill _ _ _ _).symm.trans_le behind.keeps.patterns
      refine (Nat.mod_le _ _).trans_lt ?_
      omega
    · exact insideBehind other member

/-- Compiling a repository compiles the rules that get numbers with its entries. -/
theorem entries_build {items : List (String × Rule)}
    (went : items.forM (entry engine) before = .ok ((), after)) :
    ∃ children, Builds engine (items.flatMap fun item => item.2.listed) before children after := by
  induction items generalizing before with
  | nil =>
    cases went
    exact ⟨[], .nil⟩
  | cons item rest ih =>
    obtain ⟨name, source⟩ := item
    rw [List.forM, bind_eq_ok] at went
    obtain ⟨⟨⟩, middle, first, went⟩ := went
    obtain ⟨children, builds⟩ := ih went
    obtain ⟨id, made, compiled, rfl⟩ := entry_eq_ok first
    have inside : id < made.patterns.size := by
      have outcome := rule_compiled source compiled
      rw [outcome.number]
      exact (Nat.mod_le _ _).trans_lt outcome.more
    rw [List.flatMap_cons]
    exact ⟨[.pattern id] ++ children, (rule_builds source compiled).append (.entry inside builds)⟩

/-- Nothing has been compiled yet. -/
def initial (source : Source) : Compiler :=
  ⟨source.maxExtend.getD defaultMaxExtend, #[defaultStyleName], #[], #[], #[], []⟩

theorem indexed_initial (source : Source) (names : String → Prop) :
    (initial source).Indexed names := by
  refine ⟨rfl, fun index pattern here => ?_, fun list member => ?_, fun pattern member => ?_,
    fun known member => nomatch member⟩
  · rw [show (initial source).patterns[index]? = none from rfl] at here
    cases here
  · exact absurd member (Array.not_mem_empty list)
  · exact absurd member (Array.not_mem_empty pattern)

/-- **Compiling a source compiles the rules that get numbers, one after the other.** -/
theorem builds_of_written {source : Source} (went : source.written engine = .ok after) :
    ∃ children, Builds engine source.listed (initial source) children after := by
  obtain ⟨id, rooted, ruled, entries⟩ := written_eq_ok went
  obtain ⟨children, builds⟩ := entries_build entries
  exact ⟨_, (rule_builds _ ruled).append builds⟩

end Compiler

end Highlight.Grammar
