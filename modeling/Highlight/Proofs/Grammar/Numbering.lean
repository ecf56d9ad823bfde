/-
**Every rule gets the number of its place.**

Rules are numbered as they are read: a rule, then the rules in it that are no includes, each with those
in it. So the numbers can be told from the source alone, and with them what each rule lists:

* `Rule.listed`, `Source.listed`: the rules that get numbers, in their order;
* `Rule.refs`: what a rule lists, as it is written; `Source.entries`: the numbers of the entries of the
  repository;
* `Rule.listed_of_refs`: a number that a rule lists is that of a rule in it;
* `Compiler.lays_of_written`: **compiling the rules of a source makes a pattern of each one at its
  number**, as long as there are numbers for all of them.
-/

import Highlight.Proofs.Grammar.Compile

namespace Highlight.Grammar

variable {engine : Regex.Engine}

/-! ### Rules and their numbers -/

namespace Rule

mutual

/-- The rules that get a number with a rule: the rule itself, then those in it. -/
def listed : Rule → List Rule
  | ⟨head, inner⟩ => ⟨head, inner⟩ :: listedAll inner

/-- The rules that get a number with the rules in a rule, which includes do not. -/
def listedAll : List Rule → List Rule
  | [] => []
  | first :: rest =>
    (match first.head.reference with
      | some _ => []
      | none => listed first) ++ listedAll rest

end

/-- What a rule lists, as it is written, if the first rule in it gets the number `next`. -/
def refs (next : PatternId) : List Rule → List ChildRef
  | [] => []
  | first :: rest =>
    match first.head.reference with
    | some name => .include name :: refs next rest
    | none => .pattern next :: refs (next + first.listed.length) rest

/-- The numbers of the entries of a repository, if the first one gets the number `next`. -/
def entries (next : PatternId) : List (String × Rule) → List (String × PatternId)
  | [] => []
  | (name, entry) :: rest => (name, next) :: entries (next + entry.listed.length) rest

theorem listedAll_cons_named {first : Rule} {name : String} (rest : List Rule)
    (included : first.head.reference = some name) : listedAll (first :: rest) = listedAll rest := by
  rw [listedAll, included]
  rfl

theorem listedAll_cons_rule {first : Rule} (rest : List Rule) (written : first.head.reference = none) :
    listedAll (first :: rest) = first.listed ++ listedAll rest := by
  rw [listedAll, written]

theorem refs_cons_named {first : Rule} {name : String} (next : PatternId) (rest : List Rule)
    (included : first.head.reference = some name) :
    refs next (first :: rest) = .include name :: refs next rest := by
  rw [refs, included]

theorem refs_cons_rule {first : Rule} (next : PatternId) (rest : List Rule)
    (written : first.head.reference = none) :
    refs next (first :: rest) = .pattern next :: refs (next + first.listed.length) rest := by
  rw [refs, written]

theorem listed_eq (rule : Rule) : rule.listed = rule :: listedAll rule.rules := by
  cases rule
  rw [listed]

theorem listed_pos (rule : Rule) : 0 < rule.listed.length := by
  rw [listed_eq]
  exact Nat.succ_pos _

/-- Each rule of a list is followed by the rules in it. -/
def Unbroken (rules : List Rule) : Prop :=
  ∀ index rule, rules[index]? = some rule →
    ∃ front back, rules = front ++ (rule.listed ++ back) ∧ front.length = index

theorem Unbroken.append {front back : List Rule} (first : Unbroken front) (second : Unbroken back) :
    Unbroken (front ++ back) := by
  intro index rule here
  rcases lt_or_ge index front.length with inside | behind
  · rw [List.getElem?_append_left inside] at here
    obtain ⟨before, after, rfl, place⟩ := first index rule here
    exact ⟨before, after ++ back, by simp only [List.append_assoc], place⟩
  · rw [List.getElem?_append_right behind] at here
    obtain ⟨before, after, rfl, place⟩ := second _ rule here
    refine ⟨front ++ before, after, by simp only [List.append_assoc], ?_⟩
    rw [List.length_append]
    omega

mutual

theorem unbroken_listed : ∀ rule : Rule, Unbroken rule.listed
  | ⟨head, inner⟩ => by
    intro index rule here
    cases index with
    | zero =>
      rw [listed_eq] at here
      cases here
      exact ⟨[], [], by simp only [List.append_nil, List.nil_append], rfl⟩
    | succ index =>
      rw [listed_eq, List.getElem?_cons_succ] at here
      obtain ⟨before, after, split, place⟩ := unbroken_listedAll inner index rule here
      refine ⟨⟨head, inner⟩ :: before, after, ?_, congrArg Nat.succ place⟩
      rw [listed_eq, split]
      rfl

theorem unbroken_listedAll : ∀ rules : List Rule, Unbroken (listedAll rules)
  | [] => fun index rule here => by cases here
  | first :: rest => by
    rw [listedAll]
    refine Unbroken.append ?_ (unbroken_listedAll rest)
    cases first.head.reference with
    | some name => exact fun index rule here => by cases here
    | none => exact unbroken_listed first

end

theorem unbroken_flatMap (items : List (String × Rule)) :
    Unbroken (items.flatMap fun item => item.2.listed) := by
  induction items with
  | nil => exact fun index rule here => by cases here
  | cons item rest ih =>
    rw [List.flatMap_cons]
    exact (unbroken_listed item.2).append ih

/-- **A number that a rule lists is that of a rule in it.** -/
theorem listed_of_refs {front rules : List Rule} (back : List Rule) {id : PatternId}
    (member : ChildRef.pattern id ∈ refs front.length rules) :
    ∃ inner ∈ rules, inner.head.reference = none ∧
      (front ++ (listedAll rules ++ back))[id]? = some inner := by
  induction rules generalizing front with
  | nil => cases member
  | cons first rest ih =>
    rw [refs] at member
    rw [listedAll]
    cases included : first.head.reference with
    | some name =>
      rw [included] at member
      rcases List.mem_cons.mp member with same | member
      · cases same
      · obtain ⟨inner, isInner, written, here⟩ := ih member
        exact ⟨inner, List.mem_cons_of_mem _ isInner, written, here⟩
    | none =>
      rw [included] at member
      simp only
      rcases List.mem_cons.mp member with same | member
      · cases same
        refine ⟨first, List.mem_cons_self, included, ?_⟩
        rw [List.getElem?_append_right le_rfl, Nat.sub_self, listed_eq]
        rfl
      · rw [← List.length_append] at member
        obtain ⟨inner, isInner, written, here⟩ := ih member
        refine ⟨inner, List.mem_cons_of_mem _ isInner, written, ?_⟩
        rw [← here]
        simp only [List.append_assoc]

/-- **The number of an entry of a repository is that of its rule.** -/
theorem listed_of_entries {front : List Rule} {items : List (String × Rule)} {name : String}
    {id : PatternId} (member : (name, id) ∈ entries front.length items) :
    ∃ entry, (name, entry) ∈ items ∧
      (front ++ items.flatMap fun item => item.2.listed)[id]? = some entry := by
  induction items generalizing front with
  | nil => cases member
  | cons item rest ih =>
    obtain ⟨first, rule⟩ := item
    rw [entries] at member
    rw [List.flatMap_cons]
    rcases List.mem_cons.mp member with same | member
    · cases same
      refine ⟨rule, List.mem_cons_self, ?_⟩
      rw [List.getElem?_append_right le_rfl, Nat.sub_self, listed_eq]
      rfl
    · rw [← List.length_append] at member
      obtain ⟨entry, isEntry, here⟩ := ih member
      refine ⟨entry, List.mem_cons_of_mem _ isEntry, ?_⟩
      rw [← here, List.append_assoc]

theorem map_fst_entries {next : PatternId} {items : List (String × Rule)} :
    (entries next items).map Prod.fst = items.map Prod.fst := by
  induction items generalizing next with
  | nil => rfl
  | cons item rest ih =>
    obtain ⟨name, rule⟩ := item
    rw [entries, List.map_cons, List.map_cons, ih]

theorem mem_refs_include {name : String} {next : PatternId} {rules : List Rule} :
    ChildRef.include name ∈ refs next rules ↔
      ∃ inner ∈ rules, inner.head.reference = some name := by
  induction rules generalizing next with
  | nil => simp [refs]
  | cons first rest ih =>
    rw [refs]
    cases included : first.head.reference with
    | some other => simp [ih, included, eq_comm]
    | none => simp [ih, included]

end Rule

namespace Source

/-- The rules of the grammar itself, in a rule that says nothing. -/
def root (source : Source) : Rule := ⟨Head.blank, source.rules⟩

/-- The rules that get numbers, in their order. -/
def listed (source : Source) : List Rule :=
  source.root.listed ++ source.repository.flatMap fun entry => entry.2.listed

/-- The numbers of the entries of the repository. -/
def entries (source : Source) : List (String × PatternId) :=
  Rule.entries source.root.listed.length source.repository

theorem unbroken_listed (source : Source) : Rule.Unbroken source.listed :=
  (Rule.unbroken_listed _).append (Rule.unbroken_flatMap _)

end Source

/-! ### Rules that have been compiled -/

namespace Compiler

variable {before middle after : Compiler}

/-- A step makes a pattern of each of these rules, behind those that are there, and leaves those as they
are. -/
structure Lays (rules : List Rule) (before after : Compiler) : Prop where
  patterns : after.patterns.size = before.patterns.size + rules.length
  written : after.written.size = before.written.size + rules.length
  same : ∀ index < before.patterns.size, after.patterns[index]? = before.patterns[index]? ∧
    after.written[index]? = before.written[index]?
  new : ∀ index rule, rules[index]? = some rule →
    (∃ pattern, after.patterns[before.patterns.size + index]? = some pattern ∧
      pattern.isContainer = rule.head.isContainer) ∧
    after.written[before.patterns.size + index]? =
      some (Rule.refs (before.patterns.size + index + 1) rule.rules)

theorem Lays.nil (patterns : after.patterns = before.patterns)
    (written : after.written = before.written) : Lays [] before after :=
  ⟨congrArg Array.size patterns, congrArg Array.size written,
    fun index _ => by rw [patterns, written]; exact ⟨rfl, rfl⟩, fun index rule here => by cases here⟩

theorem Lays.append {front back : List Rule} (first : Lays front before middle)
    (second : Lays back middle after) : Lays (front ++ back) before after := by
  have patterns := first.patterns
  refine ⟨?_, ?_, fun index inside => ?_, fun index rule here => ?_⟩
  · rw [second.patterns, first.patterns, List.length_append, Nat.add_assoc]
  · rw [second.written, first.written, List.length_append, Nat.add_assoc]
  · obtain ⟨samePattern, sameWritten⟩ := second.same index (by omega)
    rw [samePattern, sameWritten]
    exact first.same index inside
  · rcases lt_or_ge index front.length with inside | behind
    · rw [List.getElem?_append_left inside] at here
      obtain ⟨samePattern, sameWritten⟩ := second.same (before.patterns.size + index) (by omega)
      rw [samePattern, sameWritten]
      exact first.new index rule here
    · rw [List.getElem?_append_right behind] at here
      have there := second.new _ rule here
      rwa [show middle.patterns.size + (index - front.length) = before.patterns.size + index by
        omega] at there

/-- A rule whose inner rules have been laid behind it is completed. -/
theorem Lays.complete {head : Head} {inner : List Rule} {id : PatternId}
    {reserved described filled : Compiler} {complete : Pattern → Pattern}
    (reserves : reserve head before = .ok (id, reserved)) (interns : Interns reserved described)
    (lays : Lays (Rule.listedAll inner) described filled)
    (few : filled.patterns.size ≤ idRange) (paired : before.written.size = before.patterns.size)
    (container : ∀ blank, (complete blank).isContainer = head.isContainer) :
    Lays (Rule.listed ⟨head, inner⟩) before
      (filled.fill id (Rule.refs (before.patterns.size + 1) inner) complete) := by
  cases reserves
  have patterns := interns.patterns
  have written := interns.written
  have size : described.patterns.size = before.patterns.size + 1 := by
    rw [patterns]
    exact Array.size_push _
  have sizeWritten : described.written.size = before.written.size + 1 := by
    rw [written]
    exact Array.size_push _
  have morePatterns := lays.patterns
  have moreWritten := lays.written
  have number : before.patterns.size % idRange = before.patterns.size := Nat.mod_eq_of_lt (by omega)
  rw [number, Rule.listed]
  refine ⟨?_, ?_, fun index inside => ?_, fun index rule here => ?_⟩
  · rw [size_patterns_fill, List.length_cons]
    omega
  · rw [size_written_fill, List.length_cons]
    omega
  · obtain ⟨samePattern, sameWritten⟩ := lays.same index (by omega)
    rw [getElem?_patterns_fill, if_neg inside.ne', getElem?_written_fill, if_neg inside.ne',
      samePattern, sameWritten, patterns, written, Array.getElem?_push, if_neg inside.ne,
      Array.getElem?_push, if_neg (by omega)]
    exact ⟨rfl, rfl⟩
  · cases index with
    | zero =>
      cases here
      have insidePatterns : before.patterns.size < filled.patterns.size := by omega
      have insideWritten : before.patterns.size < filled.written.size := by omega
      simp only [Nat.add_zero]
      refine ⟨⟨complete filled.patterns[before.patterns.size], ?_, container _⟩, ?_⟩
      · rw [getElem?_patterns_fill, if_pos rfl, Array.getElem?_eq_getElem insidePatterns]
        rfl
      · rw [getElem?_written_fill, if_pos rfl, if_pos insideWritten]
    | succ index =>
      have there := lays.new index rule here
      rw [size, Nat.add_right_comm, Nat.add_assoc] at there
      have other : before.patterns.size ≠ before.patterns.size + (index + 1) := by omega
      rwa [getElem?_patterns_fill, if_neg other, getElem?_written_fill, if_neg other]

mutual

/-- **Compiling a rule makes patterns of it and of the rules in it.** -/
theorem rule_lays : ∀ (source : Rule) {before after : Compiler} {id : PatternId},
    rule engine source before = .ok (id, after) → after.patterns.size ≤ idRange →
      before.written.size = before.patterns.size →
        Lays source.listed before after ∧ after.repository = before.repository
  | ⟨head, inner⟩, before, after, id, went, few, paired => by
    obtain ⟨reserved, complete, described, children, filled, reserves, describes, compiles, rfl⟩ :=
      rule_eq_ok went
    obtain ⟨interns, own⟩ := pattern_interns describes
    rw [size_patterns_fill] at few
    have size : described.patterns.size = before.patterns.size + 1 := by
      rw [interns.patterns]
      exact (reserve_keeps reserves).2.2
    have pairedInner : described.written.size = described.patterns.size := by
      rw [interns.written, size, ← paired]
      cases reserves
      exact Array.size_push _
    obtain ⟨lays, repository, rfl⟩ := rules_lay inner compiles few pairedInner
    rw [size]
    refine ⟨.complete reserves interns lays few paired fun blank => (own blank).2.2.2, ?_⟩
    show filled.repository = before.repository
    rw [repository, interns.repository]
    cases reserves
    rfl

theorem rules_lay : ∀ (sources : List Rule) {before after : Compiler} {children : List ChildRef},
    rules engine sources before = .ok (children, after) → after.patterns.size ≤ idRange →
      before.written.size = before.patterns.size →
        Lays (Rule.listedAll sources) before after ∧ after.repository = before.repository ∧
          children = Rule.refs before.patterns.size sources
  | [], before, after, children, went, few, paired => by
    rw [rules] at went
    cases went
    exact ⟨.nil rfl rfl, rfl, rfl⟩
  | first :: rest, before, after, children, went, few, paired => by
    rw [Rule.listedAll, Rule.refs]
    rcases rules_cons_eq_ok went with ⟨name, others, included, rfl, compiles⟩ |
      ⟨id, middle, others, included, rfl, compiled, compiles⟩
    · rw [included]
      obtain ⟨lays, repository, rfl⟩ := rules_lay rest compiles few paired
      exact ⟨lays, repository, rfl⟩
    · rw [included]
      have keeps := rules_keep rest compiles
      have number := (rule_compiled first compiled).number
      have more := (rule_compiled first compiled).more
      obtain ⟨lays, repository⟩ := rule_lays first compiled (keeps.patterns.trans few) paired
      have pairedMiddle : middle.written.size = middle.patterns.size := by
        rw [lays.written, lays.patterns, paired]
      obtain ⟨laysRest, repositoryRest, rfl⟩ := rules_lay rest compiles few pairedMiddle
      refine ⟨lays.append laysRest, repositoryRest.trans repository, ?_⟩
      rw [lays.patterns, number,
        Nat.mod_eq_of_lt (more.trans_le (keeps.patterns.trans few))]

end

/-- **Compiling a repository makes patterns of its entries**, and notes their numbers. -/
theorem entries_lay {items : List (String × Rule)}
    (went : items.forM (entry engine) before = .ok ((), after)) (few : after.patterns.size ≤ idRange)
    (paired : before.written.size = before.patterns.size) :
    Lays (items.flatMap fun item => item.2.listed) before after ∧
      after.repository = before.repository ++ Rule.entries before.patterns.size items := by
  induction items generalizing before with
  | nil =>
    cases went
    exact ⟨.nil rfl rfl, (List.append_nil _).symm⟩
  | cons item rest ih =>
    obtain ⟨name, source⟩ := item
    rw [List.forM, bind_eq_ok] at went
    obtain ⟨⟨⟩, middle, first, went⟩ := went
    have keeps := entries_keep went
    obtain ⟨id, made, compiled, rfl⟩ := entry_eq_ok first
    have more := (rule_compiled source compiled).more
    obtain ⟨lays, repository⟩ := rule_lays source compiled (keeps.patterns.trans few) paired
    have pairedMade : made.written.size = made.patterns.size := by
      rw [lays.written, lays.patterns, paired]
    obtain ⟨laysRest, repositoryRest⟩ := ih went pairedMade
    refine ⟨?_, ?_⟩
    · rw [List.flatMap_cons]
      exact lays.append ⟨laysRest.patterns, laysRest.written, laysRest.same, laysRest.new⟩
    · rw [repositoryRest, repository, lays.patterns, Rule.entries, List.append_assoc,
        (rule_compiled source compiled).number,
        Nat.mod_eq_of_lt (more.trans_le (keeps.patterns.trans few))]
      rfl

end Compiler

namespace Source

/-- The rules of a source have been compiled, each one to the pattern of its number. -/
structure Laid (source : Source) (compiler : Compiler) : Prop where
  size : compiler.patterns.size = source.listed.length
  container : ∀ id : PatternId, compiler.patterns[id]?.map (·.isContainer) =
    source.listed[id]?.map (·.head.isContainer)
  written : ∀ id : PatternId, compiler.written[id]? =
    source.listed[id]?.map fun rule => Rule.refs (id + 1) rule.rules
  repository : compiler.repository = source.entries

/-- **Compiling the rules of a source makes a pattern of each one at its number**, as long as there are
numbers for all of them. -/
theorem laid_of_written {source : Source} {compiler : Compiler}
    (went : source.written engine = .ok compiler) (few : compiler.patterns.size ≤ Compiler.idRange) :
    source.Laid compiler := by
  obtain ⟨id, rooted, ruled, entries⟩ := written_eq_ok went
  have fewRooted := (Compiler.entries_keep entries).patterns.trans few
  obtain ⟨laysRoot, none⟩ := Compiler.rule_lays _ ruled fewRooted rfl
  have paired : rooted.written.size = rooted.patterns.size := by
    rw [laysRoot.written, laysRoot.patterns]
    rfl
  obtain ⟨laysEntries, repository⟩ := Compiler.entries_lay entries few paired
  have lays := laysRoot.append laysEntries
  have size : compiler.patterns.size = source.listed.length := lays.patterns.trans (Nat.zero_add _)
  have sizeWritten : compiler.written.size = source.listed.length :=
    lays.written.trans (Nat.zero_add _)
  refine ⟨size, fun id => ?_, fun id => ?_, ?_⟩
  · cases here : source.listed[id]? with
    | none =>
      have outside := size.trans_le (List.getElem?_eq_none_iff.mp here)
      rw [Array.getElem?_eq_none outside]
      rfl
    | some rule =>
      obtain ⟨pattern, there, container⟩ := (lays.new id rule here).1
      rw [show (#[] : Array Pattern).size + id = id from Nat.zero_add id] at there
      rw [there]
      exact congrArg some container
  · cases here : source.listed[id]? with
    | none =>
      have outside := sizeWritten.trans_le (List.getElem?_eq_none_iff.mp here)
      rw [Array.getElem?_eq_none outside]
      rfl
    | some rule =>
      have there := (lays.new id rule here).2
      rwa [show (#[] : Array Pattern).size + id = id from Nat.zero_add id] at there
  · rw [repository, none, laysRoot.patterns]
    show [] ++ Rule.entries (0 + _) _ = _
    rw [Nat.zero_add]
    rfl

end Source

end Highlight.Grammar
