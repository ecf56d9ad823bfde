/-
**Which sources compile.**

A source is refused for three reasons only: for what a rule needs, for a name in an include that there is no
rule for, and for regexes that form no set. All of them can be told from the source:

* `Source.Joins`: what the children of a pattern begin with can be members of a set;
* `Source.Compilable`: a source that is not refused for any of the reasons;
* `Source.exists_compile_iff`: **exactly these sources compile**, as long as there are numbers for all
  rules and regexes;
* `Source.exists_unresolved_iff`: **a source is refused for an include exactly if a name dangles** and there
  is nothing that a rule needs and does not get.
-/

import Highlight.Proofs.Grammar.Numbers

namespace Highlight.Grammar

variable {engine : Regex.Engine}

open Compiler (idRange)

/-- A rule matches nothing itself if it says nothing of what a pattern begins with. -/
theorem Head.isContainer_eq (head : Head) : head.isContainer = head.opens.isNone := by
  unfold isContainer opens
  cases head.single <;> rfl

/-- Only a rule that has a number leads to anything. -/
theorem Source.lt_of_reaches {source : Source} {id child : PatternId}
    (reaches : source.outline.Reaches id child) : id < source.listed.length := by
  obtain ⟨other, member⟩ : ∃ other, other ∈ source.outline.children id := by
    cases reaches with
    | listed member => exact ⟨_, member⟩
    | inside member _ _ => exact ⟨_, member⟩
  unfold outline at member
  simp only at member
  cases here : source.listed[id]? with
  | none =>
    rw [here] at member
    cases member
  | some rule => exact (List.getElem?_eq_some_iff.mp here).1

/-- What the children of a pattern begin with can be members of a set. -/
def Source.Joins (engine : Regex.Engine) (source : Source) : Prop :=
  ∀ id child rule text regex, source.outline.Reaches id child → source.listed[child]? = some rule →
    rule.head.opens = some text → engine.compile text = .ok regex → regex.memberError? = none

/-- There is no reason to refuse a source. -/
structure Source.Compilable (engine : Regex.Engine) (source : Source) : Prop where
  met : Met engine source.needs
  resolved : ∀ name, ¬ source.Dangling name
  joins : source.Joins engine

/-! ### Sets of regexes -/

namespace Source.Makes

variable {source : Source} {grammar : Grammar} (made : source.Makes engine grammar)
include made

/-- Each regex of a grammar is what its text compiles to. -/
theorem compiles {index : Nat} {regex : Regex} (here : grammar.regexes[index]? = some regex) :
    engine.compile regex.source = .ok regex := by
  obtain ⟨compiler, patterns, went, -, rfl⟩ := made
  have pairs := (holds_of_written went).2.regexes
  have here : compiler.tables.regexes.toList[index]? = some regex := by
    rw [Array.getElem?_toList]
    exact here
  obtain ⟨text, -, compiled⟩ := Compiler.exists_getElem?_of_forall₂ pairs.flip here
  exact Compiler.source_of_compile compiled ▸ compiled

variable (few : grammar.patterns.size ≤ idRange) (fewRegexes : grammar.regexes.size ≤ idRange)
include few fewRegexes

/-- The children of a pattern begin with what the rules are written to begin with that its rule leads to. -/
theorem mem_openings_iff {id : PatternId} {pattern : Pattern}
    (here : grammar.patterns[id]? = some pattern) {regex : Regex} :
    regex ∈ (grammar.openings pattern).map (·.2) ↔
      ∃ child rule, source.outline.Reaches id child ∧ source.listed[child]? = some rule ∧
        rule.head.opens = some regex.source ∧ engine.compile regex.source = .ok regex := by
  have flattens := (made.flat few).flattens id pattern here
  unfold openings
  constructor
  · intro member
    obtain ⟨⟨child, other⟩, opens, rfl⟩ := List.mem_map.mp member
    obtain ⟨child, isChild, opens⟩ := List.mem_filterMap.mp opens
    obtain ⟨own, there, opens⟩ := Option.bind_eq_some_iff.mp opens
    obtain ⟨opening, isOpening, opens⟩ := Option.bind_eq_some_iff.mp opens
    obtain ⟨regex, known, done⟩ := Option.bind_eq_some_iff.mp opens
    cases done
    have inside : child < source.listed.length :=
      made.size.1 ▸ (Array.getElem?_eq_some_iff.mp there).1
    have isRule := List.getElem?_eq_getElem inside
    obtain ⟨found, same, -, told⟩ := made.describes few isRule
    cases there.symm.trans same
    have named := (told.opening_eq fewRegexes).2
    rw [isOpening, Option.map_some, show grammar.tables.regexes[opening]? = some other from known,
      Option.map_some] at named
    refine ⟨child, _, ((flattens.mem_iff child).mp isChild).1, isRule, ?_, made.compiles known⟩
    obtain ⟨text, opens, same⟩ := Option.map_eq_some_iff.mp named.symm
    rw [opens, same]
  · rintro ⟨child, rule, reaches, isRule, opens, compiled⟩
    obtain ⟨own, there, -, told⟩ := made.describes few isRule
    have named := (told.opening_eq fewRegexes).2
    rw [opens, Option.map_some] at named
    obtain ⟨opening, isOpening, named⟩ := Option.map_eq_some_iff.mp named
    obtain ⟨other, known, same⟩ := Option.map_eq_some_iff.mp named
    have alike := made.compiles known
    rw [same, compiled] at alike
    cases alike
    have plain : source.outline.isContainer child = false := by
      unfold outline
      simp only [isRule, Option.map_some, Option.getD_some, Head.isContainer_eq, opens]
      rfl
    refine List.mem_map.mpr ⟨(child, regex), List.mem_filterMap.mpr
      ⟨child, (flattens.mem_iff child).mpr ⟨reaches, plain⟩, ?_⟩, rfl⟩
    refine Option.bind_eq_some_iff.mpr ⟨own, there, Option.bind_eq_some_iff.mpr ⟨opening, isOpening, ?_⟩⟩
    exact Option.bind_eq_some_iff.mpr ⟨regex, known, rfl⟩

/-- Whether the regexes form sets can be told from the source. -/
theorem setError?_eq_none_iff : grammar.setError? engine = none ↔ source.Joins engine := by
  unfold setError?
  simp only [List.findSome?_eq_none_iff, Option.map_eq_none_iff, Regex.Engine.setError?_eq_none_iff,
    Array.mem_toList_iff]
  constructor
  · intro fits id child rule text regex reaches isRule opens compiled
    have inside : id < grammar.patterns.size :=
      (Source.lt_of_reaches reaches).trans_eq made.size.1.symm
    refine fits _ (Array.getElem_mem inside) regex
      ((made.mem_openings_iff few fewRegexes (Array.getElem?_eq_getElem inside)).mpr
        ⟨child, rule, reaches, isRule, ?_, ?_⟩)
    · rw [opens, Compiler.source_of_compile compiled]
    · rw [Compiler.source_of_compile compiled]
      exact compiled
  · intro joins pattern member regex opens
    obtain ⟨id, here⟩ := Array.mem_iff_getElem?.mp member
    obtain ⟨child, rule, reaches, isRule, named, compiled⟩ :=
      (made.mem_openings_iff few fewRegexes here).mp opens
    exact joins id child rule _ regex reaches isRule named compiled

end Source.Makes

/-! ### Sources -/

/-- No need that is not met has to do with an include. -/
theorem Tables.meet_ne_unresolved (tables : Tables) (need : Need) (name : String) :
    tables.meet engine need ≠ .error (.error (.unresolvedInclude name)) := by
  intro failed
  cases need with
  | style other =>
    simp only [meet] at failed
    split at failed
    · cases failed
    · split at failed <;> cases failed
  | regex text =>
    simp only [meet] at failed
    split at failed <;> cases failed
  | group key =>
    simp only [meet] at failed
    split at failed
    · cases failed
    · split at failed <;> cases failed
  | kind id => cases failed

/-- Neither have regexes that form no set. -/
theorem setError?_ne_unresolved (grammar : Grammar) (name : String) :
    grammar.setError? engine ≠ some (.unresolvedInclude name) := by
  intro failed
  unfold setError? at failed
  obtain ⟨pattern, -, failed⟩ := List.exists_of_findSome?_eq_some failed
  obtain ⟨error, -, same⟩ := Option.map_eq_some_iff.mp failed
  cases same

namespace Source

variable {source : Source}

/-- There is a pattern for each rule that has been compiled. -/
theorem size_of_written {compiler : Compiler} (went : source.written engine = .ok compiler) :
    compiler.patterns.size = source.listed.length := by
  obtain ⟨children, builds⟩ := Compiler.builds_of_written went
  exact builds.size.1.trans (Nat.zero_add _)

/-- **A source compiles exactly if there is no reason to refuse it**, as long as there are numbers for all
rules and regexes. -/
theorem exists_compile_iff (few : source.listed.length ≤ idRange)
    (fewRegexes : Compiler.regexCount source.listed ≤ idRange) :
    (∃ grammar, source.compile engine = .ok grammar) ↔ source.Compilable engine := by
  constructor
  · rintro ⟨grammar, compiled⟩
    obtain ⟨made, fits⟩ := makes_of_compile compiled
    have fewPatterns := made.size.1.trans_le few
    have met := exists_written_iff.mp (made.imp fun _ ⟨_, went, _⟩ => went)
    exact ⟨met, (made.flat fewPatterns).resolved,
      (made.setError?_eq_none_iff fewPatterns (made.size.2.trans_le fewRegexes)).mp fits⟩
  · intro compilable
    obtain ⟨compiler, went⟩ := exists_written_iff.mpr compilable.met
    have laid := laid_of_written went ((size_of_written went).trans_le few)
    cases outcome : source.compile engine with
    | ok grammar => exact ⟨grammar, rfl⟩
    | error failure =>
      rcases compile_eq_error outcome with
        failed | ⟨other, cause, same, failed, -⟩ | ⟨grammar, cause, made, fails, -⟩
      · cases went.symm.trans failed
      · cases went.symm.trans same
        obtain ⟨missing, dangling, -⟩ := Compiler.dangling_of_resolved_error laid failed
        exact absurd dangling (compilable.resolved missing)
      · have fits := (made.setError?_eq_none_iff (made.size.1.trans_le few)
          (made.size.2.trans_le fewRegexes)).mpr compilable.joins
        cases fits.symm.trans fails

/-- **A source is refused for an include exactly if a name dangles** and nothing that a rule needs is
missing. The name that it is refused for dangles. -/
theorem exists_unresolved_iff (few : source.listed.length ≤ idRange) :
    ((∃ missing, source.compile engine = .error (.error (.unresolvedInclude missing))) ↔
      Met engine source.needs ∧ ∃ name, source.Dangling name) ∧
    ∀ missing, source.compile engine = .error (.error (.unresolvedInclude missing)) →
      source.Dangling missing := by
  have refused : ∀ missing, source.compile engine = .error (.error (.unresolvedInclude missing)) →
      Met engine source.needs ∧ source.Dangling missing := by
    intro missing failed
    rcases compile_eq_error failed with
      failed | ⟨compiler, cause, went, failed, same⟩ | ⟨grammar, cause, -, fails, same⟩
    · obtain ⟨front, need, back, tables, -, -, failed⟩ := written_eq_error_iff.mp failed
      exact absurd failed (Tables.meet_ne_unresolved tables need missing)
    · have laid := laid_of_written went ((size_of_written went).trans_le few)
      obtain ⟨other, dangling, rfl⟩ := Compiler.dangling_of_resolved_error laid failed
      cases same
      exact ⟨(holds_of_written went).1, dangling⟩
    · cases same
      exact absurd fails (setError?_ne_unresolved grammar missing)
  refine ⟨⟨?_, ?_⟩, fun missing failed => (refused missing failed).2⟩
  · rintro ⟨missing, failed⟩
    exact ⟨(refused missing failed).1, missing, (refused missing failed).2⟩
  · rintro ⟨met, name, dangling⟩
    obtain ⟨compiler, went⟩ := exists_written_iff.mpr met
    have fewWritten := (size_of_written went).trans_le few
    obtain ⟨missing, -, failed⟩ := Compiler.resolved_of_dangling (laid_of_written went fewWritten)
      fewWritten dangling
    refine ⟨missing, ?_⟩
    unfold compile
    rw [went, Fault.ok_bind, failed]
    rfl

end Source

end Highlight.Grammar
