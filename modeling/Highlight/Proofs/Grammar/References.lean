/-
**References survive compiling.**

A compiled grammar has numbers where its source has names, regexes and rules:

* `Source.Makes`, `Source.Makes.describes`: a compiled grammar is what compiling its rules leads to, and
  the pattern of each rule says what the rule is written to say;
* `Bears`: a pattern refers to what its rule is written to name; `Source.Carries`: all patterns of a
  grammar do, each at the number of its rule, and the styles of the grammar can be told apart;
* `Grammar.compile_carries`: **a compiled grammar carries all that its source refers to**, as long as there
  are numbers for all rules and regexes.
-/

import Highlight.Proofs.Grammar.Flatten
import Highlight.Proofs.Grammar.Read

namespace Highlight.Grammar

variable {engine : Regex.Engine}

open Compiler (initial idRange)

/-! ### Grammars -/

/-- The tables of a compiled grammar. -/
def tables (grammar : Grammar) : Tables := ⟨grammar.styles, grammar.regexes⟩

/-- A grammar is what the rules of a source and their flat lists lead to, whether or not the regexes of all
children form sets. It has the tables of the compiler, and its patterns but for their children. -/
def Source.Makes (engine : Regex.Engine) (source : Source) (grammar : Grammar) : Prop :=
  ∃ compiler patterns, source.written engine = .ok compiler ∧
    compiler.resolved = .ok { compiler with patterns := patterns } ∧
    grammar = ⟨source.name, source.displayName, source.fileTypes, compiler.styles, compiler.regexes,
      patterns, patterns.foldl (fun most pattern => max most pattern.maxExtend) 0, source.approximate⟩

/-- Flattening the children of the patterns changes the patterns only. -/
theorem Compiler.resolved_eq {compiler flat : Compiler} (resolves : compiler.resolved = .ok flat) :
    flat = { compiler with patterns := flat.patterns } := by
  obtain ⟨patterns, -, done⟩ := Fault.bind_eq_ok.mp resolves
  cases done
  rfl

theorem makes_of_compile {source : Source} {grammar : Grammar}
    (compiled : source.compile engine = .ok grammar) :
    source.Makes engine grammar ∧ grammar.setError? engine = none := by
  unfold Source.compile at compiled
  obtain ⟨compiler, went, compiled⟩ := Fault.bind_eq_ok.mp compiled
  obtain ⟨flat, resolves, compiled⟩ := Fault.bind_eq_ok.mp compiled
  cases outcome : compiler.resolved with
  | error cause =>
    rw [outcome] at resolves
    cases resolves
  | ok found =>
    rw [outcome] at resolves
    cases resolves
    have same := Compiler.resolved_eq outcome
    rw [same] at outcome compiled
    simp only at compiled
    split at compiled
    · cases compiled
    · rename_i fits
      cases compiled
      exact ⟨⟨compiler, flat.patterns, went, outcome, rfl⟩, fits⟩

/-- A source fails to compile for one of its rules, for a name that dangles or for regexes that form no
set. -/
theorem compile_eq_error {source : Source} {failure : Failure}
    (failed : source.compile engine = .error failure) :
    source.written engine = .error failure ∨
      (∃ compiler cause, source.written engine = .ok compiler ∧ compiler.resolved = .error cause ∧
        failure = .error cause) ∨
      ∃ (grammar : Grammar) (cause : Error), source.Makes engine grammar ∧
        grammar.setError? engine = some cause ∧ failure = .error cause := by
  unfold Source.compile at failed
  rcases Fault.bind_eq_error.mp failed with failed | ⟨compiler, went, failed⟩
  · exact Or.inl failed
  · refine Or.inr ?_
    cases outcome : compiler.resolved with
    | error cause =>
      rw [outcome] at failed
      cases failed
      exact Or.inl ⟨compiler, cause, went, outcome, rfl⟩
    | ok flat =>
      rw [outcome] at failed
      rcases Fault.bind_eq_error.mp failed with done | ⟨flat, same, failed⟩
      · cases done
      · cases same
        have same := Compiler.resolved_eq outcome
        rw [same] at outcome failed
        simp only at failed
        split at failed
        · rename_i cause fails
          cases failed
          exact Or.inr ⟨_, cause, ⟨compiler, flat.patterns, went, outcome, rfl⟩, fails, rfl⟩
        · cases failed

namespace Source.Makes

variable {source : Source} {grammar : Grammar} (made : source.Makes engine grammar)
include made

/-- There is a pattern for each rule, and a regex for each regex of a rule. -/
theorem size : grammar.patterns.size = source.listed.length ∧
    grammar.regexes.size = Compiler.regexCount source.listed := by
  obtain ⟨compiler, patterns, went, resolves, rfl⟩ := made
  obtain ⟨children, builds⟩ := Compiler.builds_of_written went
  have size : patterns.size = compiler.patterns.size := (Compiler.resolved_eq_ok resolves).2.1
  exact ⟨size.trans (builds.size.1.trans (Nat.zero_add _)),
    builds.grows.2.2.trans (Nat.zero_add _)⟩

/-- Every pattern has the flat list of what its rule lists, as long as there are numbers for all rules. -/
theorem flat (few : grammar.patterns.size ≤ idRange) : source.Flat grammar := by
  obtain ⟨compiler, patterns, went, resolves, rfl⟩ := made
  exact flat_of_resolved went resolves rfl few

/-- A pattern has the number of its place, cut to the numbers there are. -/
theorem number {id : PatternId} {pattern : Pattern}
    (here : grammar.patterns[id]? = some pattern) : pattern.id = id % idRange := by
  obtain ⟨compiler, patterns, went, resolves, rfl⟩ := made
  obtain ⟨children, builds⟩ := Compiler.builds_of_written went
  obtain ⟨-, size, each⟩ := Compiler.resolved_eq_ok resolves
  have indexed := (builds.indexed (Compiler.indexed_initial source fun _ => True)
    fun _ _ _ _ _ _ => trivial).1
  have inside : id < compiler.patterns.size := size ▸ (Array.getElem?_eq_some_iff.mp here).1
  obtain ⟨flat, -, there⟩ := each id _ (Array.getElem?_eq_getElem inside)
  cases here.symm.trans there
  exact indexed.number id compiler.patterns[id] (Array.getElem?_eq_getElem inside)

/-- **The pattern of a rule says what the rule is written to say**, as long as there are numbers for all
rules. -/
theorem describes (few : grammar.patterns.size ≤ idRange) {id : PatternId} {rule : Rule}
    (here : source.listed[id]? = some rule) :
    ∃ pattern, grammar.patterns[id]? = some pattern ∧
      pattern.maxExtend = rule.head.maxExtend.getD (source.maxExtend.getD defaultMaxExtend) ∧
      Describes grammar.tables rule.head (Compiler.regexCount (source.listed.take id)) pattern := by
  obtain ⟨compiler, patterns, went, resolves, rfl⟩ := made
  obtain ⟨children, builds⟩ := Compiler.builds_of_written went
  obtain ⟨-, size, each⟩ := Compiler.resolved_eq_ok resolves
  obtain ⟨pattern, there, reach, told⟩ := builds.describes (size ▸ few) here
  rw [show (initial source).patterns.size + id = id from Nat.zero_add id] at there
  rw [show (initial source).regexes.size = 0 from rfl, Nat.zero_add] at told
  obtain ⟨flat, -, made⟩ := each id pattern there
  exact ⟨_, made, reach, { told with }⟩

end Source.Makes

/-! ### References -/

namespace Describes

variable {tables : Tables} {head : Head} {start : Nat} {pattern : Pattern}
  (describes : Describes tables head start pattern) (few : tables.regexes.size ≤ idRange)
include describes few

/-- As long as there are numbers for all regexes, that of the opening one is not cut. -/
theorem opening_eq : pattern.opening = head.opens.map (fun _ => start) ∧
    pattern.opening.map (fun id => tables.regexes[id]?.map (·.source)) = head.opens.map some := by
  rw [describes.opening]
  cases opens : head.opens with
  | none => exact ⟨rfl, rfl⟩
  | some text =>
    have first : head.texts[0]? = some text := by
      unfold Head.texts
      rw [opens]
      rfl
    have named := describes.regexes 0 text first
    obtain ⟨regex, here, -⟩ := Option.map_eq_some_iff.mp named
    have inside := (Array.getElem?_eq_some_iff.mp here).1
    rw [Option.map_some, Nat.mod_eq_of_lt (by omega)]
    exact ⟨rfl, congrArg some named⟩

theorem closing_eq : pattern.closing = head.closing.map (fun _ => start + 1) ∧
    pattern.closing.map (fun id => tables.regexes[id]?.map (·.source)) = head.closing.map some := by
  rw [describes.closing]
  cases closes : head.closing with
  | none => exact ⟨rfl, rfl⟩
  | some text =>
    obtain ⟨other, opens⟩ := Head.exists_opens describes.kind closes
    have second : head.texts[1]? = some text := by
      unfold Head.texts
      rw [opens, closes]
      rfl
    have named := describes.regexes 1 text second
    obtain ⟨regex, here, -⟩ := Option.map_eq_some_iff.mp named
    have inside := (Array.getElem?_eq_some_iff.mp here).1
    rw [Option.map_some, Nat.mod_eq_of_lt (by omega)]
    exact ⟨rfl, congrArg some named⟩

end Describes

/-- A pattern refers to what its rule is written to name. -/
structure Bears (grammar : Grammar) (head : Head) (reach : Nat) (pattern : Pattern) : Prop where
  style : pattern.style.map (grammar.styles[·]?) = head.name.map some
  opening : pattern.opening.map (fun id => grammar.regexes[id]?.map (·.source)) = head.opens.map some
  closing : pattern.closing.map (fun id => grammar.regexes[id]?.map (·.source)) =
    head.closing.map some
  openingCaptures : ∀ group : Nat, (pattern.openingCaptures[group]?.join).map (grammar.styles[·]?) =
    (nameOf? head.openingTable group).map some
  closingCaptures : ∀ group : Nat, (pattern.closingCaptures[group]?.join).map (grammar.styles[·]?) =
    (nameOf? head.closingTable group).map some
  pushCapture : pattern.pushCapture = head.pushCapture
  endCapture : pattern.endCapture = head.endCapture
  closingLast : pattern.closingLast = head.closingLast
  maxExtend : pattern.maxExtend = head.maxExtend.getD reach

/-- A grammar carries what a source refers to. -/
structure Source.Carries (source : Source) (grammar : Grammar) : Prop where
  /-- There is a pattern for each rule: for the root, the rules in it but for includes, each with those in
  it, and for the entries of the repository in their order, each with the rules in it. -/
  size : grammar.patterns.size = source.listed.length
  number : ∀ (id : PatternId) pattern, grammar.patterns[id]? = some pattern → pattern.id = id
  bears : ∀ (id : PatternId) rule pattern, source.listed[id]? = some rule →
    grammar.patterns[id]? = some pattern →
      Bears grammar rule.head (source.maxExtend.getD defaultMaxExtend) pattern
  /-- No match looks around further than the grammar says. -/
  reach : ∀ pattern ∈ grammar.patterns, pattern.maxExtend ≤ grammar.maxExtend
  first : grammar.styles[0]? = some defaultStyleName
  distinct : grammar.styles.toList.Nodup
  few : grammar.styles.size ≤ 256
  styleId : ∀ id < grammar.styles.size, grammar.styleId? (grammar.styleName id) = some id

/-- The largest distance is one of those that it is the largest of. -/
theorem maxExtend_le_foldl {patterns : Array Pattern} {pattern : Pattern} (member : pattern ∈ patterns) :
    pattern.maxExtend ≤ patterns.foldl (fun most pattern => max most pattern.maxExtend) 0 := by
  rw [← Array.foldl_toList, ← List.foldl_map, List.foldl_max]
  refine le_trans ?_ (Nat.le_max_right _ _)
  exact List.le_max?_getD_of_mem (List.mem_map_of_mem (Array.mem_toList_iff.mpr member))

/-- Names that are all different have the numbers of their places. -/
theorem styleId?_styleName {grammar : Grammar} (distinct : grammar.styles.toList.Nodup) {id : StyleId}
    (inside : id < grammar.styles.size) : grammar.styleId? (grammar.styleName id) = some id := by
  unfold styleId? styleName
  rw [Array.getD_eq_getD_getElem?, Array.getElem?_eq_getElem inside, Option.getD_some,
    Array.findIdx?_eq_some_iff_getElem]
  refine ⟨inside, beq_self_eq_true _, fun other before same => ?_⟩
  have insideToo : other < grammar.styles.toList.length := lt_trans before inside
  have equal : grammar.styles.toList[other] = grammar.styles.toList[id] := by
    simpa using beq_iff_eq.mp same
  exact before.ne (distinct.getElem_inj_iff.mp equal)

/-- **What the rules of a source lead to carries what the source refers to**, as long as there are numbers
for all rules and regexes. -/
theorem Source.Makes.carries {source : Source} {grammar : Grammar} (made : source.Makes engine grammar)
    (few : grammar.patterns.size ≤ idRange) (fewRegexes : grammar.regexes.size ≤ idRange) :
    source.Carries grammar := by
  obtain ⟨styles, met⟩ : grammar.styles.toList = styleTable source.needs ∧ Met engine source.needs := by
    obtain ⟨compiler, patterns, went, -, rfl⟩ := made
    obtain ⟨met, holds⟩ := holds_of_written went
    exact ⟨holds.styles, met⟩
  have distinct : grammar.styles.toList.Nodup := styles ▸ nodup_eraseDups _
  refine ⟨made.size.1, fun id pattern here => ?_, fun id rule pattern isRule here => ?_,
    fun pattern member => ?_, ?_, distinct, ?_, fun id => styleId?_styleName distinct⟩
  · rw [made.number here]
    exact Nat.mod_eq_of_lt ((Array.getElem?_eq_some_iff.mp here).1.trans_le few)
  · obtain ⟨found, there, reach, told⟩ := made.describes few isRule
    cases here.symm.trans there
    exact ⟨told.style, (told.opening_eq fewRegexes).2, (told.closing_eq fewRegexes).2,
      told.openingCaptures, told.closingCaptures, told.pushCapture, told.endCapture, told.closingLast,
      reach⟩
  · obtain ⟨compiler, patterns, -, -, rfl⟩ := made
    exact maxExtend_le_foldl member
  · rw [← Array.getElem?_toList, styles, styleTable, List.eraseDups_cons]
    rfl
  · rw [← Array.length_toList, styles]
    exact met.styles

end Highlight.Grammar
