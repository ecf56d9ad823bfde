/-
**What an include counts.**

An include of an entry of the repository is worth the rule of the entry, but not what the entry itself
includes: the rule of an entry is compiled as if it named no other rule.

* `Source.unnamed`: a source without what its entries include; `Source.compile_unnamed`: **it compiles to
  the same grammar**;
* `Source.Replaces.compilable_iff`: with the rule of an entry in place of an include a source compiles if
  and only if it has done so before;
* `Source.Mirrors`: the patterns of one grammar are copies of those of another one, with copies of the same
  children;
* `Grammar.compile_includes`: **an include contributes exactly the children that the rule of the entry
  contributes in its place**, and a source is refused for an include exactly if a rule that is no include
  lists a name that means nothing.
-/

import Mathlib.Data.List.Flatten
import Highlight.Proofs.Grammar.Compilable
import Highlight.Proofs.Grammar.Inline

namespace Highlight.Grammar

variable {engine : Regex.Engine}

open Compiler (idRange regexCount)

/-! ### What entries include -/

/-- What an entry of a repository includes is passed over. -/
theorem Compiler.rule_unnamed (source : Rule) :
    Compiler.rule engine source.unnamed = Compiler.rule engine source := by
  obtain ⟨head, inner⟩ := source
  unfold Rule.unnamed
  rw [Compiler.rule, Compiler.rule]
  rfl

theorem Compiler.forM_entry_unnamed (items : List (String × Rule)) :
    (items.map fun item => (item.1, item.2.unnamed)).forM (Compiler.entry engine) =
      items.forM (Compiler.entry engine) := by
  induction items with
  | nil => rfl
  | cons item rest ih =>
    have first : Compiler.entry engine (item.1, item.2.unnamed) = Compiler.entry engine item := by
      rw [Compiler.entry, Compiler.rule_unnamed]
      rfl
    rw [List.map_cons, List.forM, List.forM, first, ih]

namespace Source

/-- The source without what its entries include. -/
def unnamed (source : Source) : Source :=
  { source with repository := source.repository.map fun item => (item.1, item.2.unnamed) }

/-- **What the entries of a repository include makes no difference.** -/
theorem compile_unnamed (source : Source) :
    source.unnamed.compile engine = source.compile engine := by
  have same : source.unnamed.written engine = source.written engine := by
    unfold written unnamed
    simp only [Compiler.forM_entry_unnamed]
  unfold compile
  rw [same]
  rfl

end Source

/-! ### Needs of copies -/

/-- What can be met for some rules can be met for copies of them. -/
theorem Met.copies {rules copies : List Rule} (met : Met engine (needsFrom 0 rules))
    (heads : copies.map (·.head.unnamed) ⊆ rules.map (·.head.unnamed)) :
    Met engine (needsFrom 0 copies) := by
  -- A rule of no kind would need its own number, but what it needs could not be met.
  have subset : needsFrom 0 copies ⊆ needsFrom 0 rules := by
    intro need member
    obtain ⟨index, copy, isCopy, member⟩ := mem_needsFrom_iff.mp member
    obtain ⟨rule, isRule, same⟩ := List.mem_map.mp
      (heads (List.mem_map_of_mem (List.mem_of_getElem? isCopy)))
    obtain ⟨place, here⟩ := List.mem_iff_getElem?.mp isRule
    have kind : rule.head.isMixed = false := Head.kind_of_fits fun need member =>
      met.fits need (mem_needsFrom_iff.mpr ⟨place, rule, here, member⟩)
    have member : need ∈ copy.head.unnamed.needs ((0 + index) % idRange) := member
    rw [← same] at member
    refine mem_needsFrom_iff.mpr ⟨place, rule, here, ?_⟩
    rw [Head.needs_congr kind _ ((0 + index) % idRange)]
    exact member
  refine ⟨fun need member => met.fits need (subset member), le_trans ?_ met.styles⟩
  refine ((nodup_eraseDups _).subperm fun name member => ?_).length_le
  unfold styleTable at member ⊢
  rw [List.mem_eraseDups] at member ⊢
  exact List.cons_subset_cons _ (List.filterMap_subset _ subset) member

namespace Source

namespace Replaces

variable {source inlined : Source} {origin : PatternId → PatternId} {change : ChildRef → ChildRef}
  (replaces : Replaces origin change inlined source)
include replaces

/-- The rules have no other heads than before. -/
theorem heads_subset :
    inlined.listed.map (·.head.unnamed) ⊆ source.listed.map (·.head.unnamed) := by
  intro head member
  obtain ⟨copy, isCopy, rfl⟩ := List.mem_map.mp member
  obtain ⟨id, here⟩ := List.mem_iff_getElem?.mp isCopy
  obtain ⟨rule, there, alike⟩ := replaces.exists_original here
  exact List.mem_map.mpr ⟨rule, List.mem_of_getElem? there, alike.symm⟩

/-- There are no fewer rules and regexes than before. -/
theorem size_le : source.listed.length ≤ inlined.listed.length ∧
    regexCount source.listed ≤ regexCount inlined.listed := by
  have count : ∀ rules : List Rule, regexCount rules =
      ((rules.map (·.head.unnamed)).flatMap Head.texts).length := by
    intro rules
    rw [List.flatMap_map]
    rfl
  have fewer := replaces.heads_sublist
  refine ⟨?_, ?_⟩
  · simpa only [List.length_map] using fewer.length_le
  · rw [count, count]
    exact (fewer.flatMap Head.texts).length_le

/-- Regexes of children that form sets form them with the copies. -/
theorem joins_iff : inlined.Joins engine ↔ source.Joins engine := by
  have opens : ∀ {copy rule : Rule}, copy.head.unnamed = rule.head.unnamed →
      copy.head.opens = rule.head.opens := by
    intro copy rule alike
    show copy.head.unnamed.opens = rule.head.unnamed.opens
    rw [alike]
  constructor
  · intro joins id child rule text regex reaches isRule begins compiled
    obtain ⟨own, -, rfl⟩ := replaces.onto id (lt_of_reaches reaches)
    obtain ⟨ownChild, rfl, leads⟩ := replaces.covers.reaches_iff.mp reaches
    obtain ⟨copy, isCopy, alike⟩ := replaces.exists_copy isRule
    exact joins own ownChild copy text regex leads isCopy ((opens alike).trans begins) compiled
  · intro joins id child copy text regex reaches isCopy begins compiled
    obtain ⟨rule, isRule, alike⟩ := replaces.exists_original isCopy
    have leads := replaces.covers.reaches_iff.mpr ⟨child, rfl, reaches⟩
    exact joins (origin id) (origin child) rule text regex leads isRule
      ((opens alike).symm.trans begins) compiled

/-- **There is a reason to refuse a source with a rule in place of an include exactly if there has been
one.** -/
theorem compilable_iff : inlined.Compilable engine ↔ source.Compilable engine := by
  constructor
  · rintro ⟨met, resolved, joins⟩
    exact ⟨met.copies replaces.heads_sublist.subset,
      fun name dangling => resolved name (replaces.dangling_iff.mpr dangling),
      replaces.joins_iff.mp joins⟩
  · rintro ⟨met, resolved, joins⟩
    exact ⟨met.copies replaces.heads_subset,
      fun name dangling => resolved name (replaces.dangling_iff.mp dangling),
      replaces.joins_iff.mpr joins⟩

end Replaces

/-! ### Grammars -/

/-- The patterns of one grammar are copies of those of another one: each says what its origin says, and has
copies of exactly the children of its origin. -/
structure Mirrors (source : Source) (origin : PatternId → PatternId) (own grammar : Grammar) : Prop where
  root : origin rootPattern = rootPattern
  /-- There is a copy of every pattern. -/
  onto : ∀ id < grammar.patterns.size, ∃ copy < own.patterns.size, origin copy = id
  bears : ∀ (id : PatternId) copy, own.patterns[id]? = some copy →
    ∃ pattern head, grammar.patterns[origin id]? = some pattern ∧
      Bears own head (source.maxExtend.getD defaultMaxExtend) copy ∧
        Bears grammar head (source.maxExtend.getD defaultMaxExtend) pattern
  children : ∀ (id : PatternId) copy pattern, own.patterns[id]? = some copy →
    grammar.patterns[origin id]? = some pattern →
      ∀ child, child ∈ pattern.children ↔ child ∈ copy.children.map origin
  /-- The children are in the same order, if the containers that lead to them form no cycle. -/
  order : ∀ (id : PatternId) copy pattern, own.patterns[id]? = some copy →
    grammar.patterns[origin id]? = some pattern → source.outline.Acyclic (origin id) →
      (copy.children.map origin).eraseDups = pattern.children

/-- **Sources whose rules are copies compile to grammars whose patterns are copies**, as long as there are
numbers for all of them. -/
theorem Replaces.mirrors {source inlined : Source} {origin : PatternId → PatternId}
    {change : ChildRef → ChildRef} (replaces : Replaces origin change inlined source)
    {own grammar : Grammar} (made : inlined.Makes engine own) (wasMade : source.Makes engine grammar)
    (few : inlined.listed.length ≤ idRange) (fewRegexes : regexCount inlined.listed ≤ idRange) :
    source.Mirrors origin own grammar := by
  obtain ⟨fewer, fewerRegexes⟩ := replaces.size_le
  have size := wasMade.size.1
  have fewOwn := made.size.1.trans_le few
  have fewOld := size.trans_le (fewer.trans few)
  have flatOwn := made.flat fewOwn
  have flatOld := wasMade.flat fewOld
  have carriesOwn := made.carries fewOwn (made.size.2.trans_le fewRegexes)
  have carriesOld := wasMade.carries fewOld (wasMade.size.2.trans_le (fewerRegexes.trans fewRegexes))
  refine ⟨replaces.root, fun id inside => ?_, fun id copy here => ?_,
    fun id copy pattern here there child => ?_, fun id copy pattern here there acyclic => ?_⟩
  · obtain ⟨copy, isCopy, same⟩ := replaces.onto id (inside.trans_eq size)
    exact ⟨copy, isCopy.trans_eq made.size.1.symm, same⟩
  · have isCopy := List.getElem?_eq_getElem (made.size.1 ▸ (Array.getElem?_eq_some_iff.mp here).1)
    obtain ⟨rule, isRule, alike⟩ := replaces.exists_original isCopy
    have inside : origin id < grammar.patterns.size :=
      (List.getElem?_eq_some_iff.mp isRule).1.trans_eq size.symm
    have there := Array.getElem?_eq_getElem inside
    have bearsOwn := carriesOwn.bears id _ copy isCopy here
    have bearsOld := carriesOld.bears _ rule _ isRule there
    rw [replaces.maxExtend] at bearsOwn
    exact ⟨_, rule.head.unnamed, there, alike ▸ { bearsOwn with }, { bearsOld with }⟩
  · exact replaces.covers.mem_flat_iff (flatOld.flattens _ pattern there) (flatOwn.flattens id copy here)
      child
  · exact replaces.covers.flat_eq (flatOld.flattens _ pattern there) (flatOwn.flattens id copy here)
      acyclic

end Source

/-- **An include contributes exactly the children that the rule of the entry contributes in its place**,
as long as there are numbers for all rules and regexes, but what the entry itself includes is dropped. A
source is refused for an include exactly if some rule lists a name that means nothing, and nothing that a
rule needs is missing. -/
theorem compile_includes (engine : Regex.Engine) (source : Source) :
    source.unnamed.compile engine = source.compile engine ∧
    (∀ reference entry inlined, source.entry? reference = some entry →
      source.Inlines reference entry.unnamed inlined → inlined.listed.length ≤ idRange →
        regexCount inlined.listed ≤ idRange →
          ((∃ own, inlined.compile engine = .ok own) ↔
            ∃ grammar, source.compile engine = .ok grammar) ∧
          ∃ place number, source.resolve? reference = some number ∧
            ∀ own grammar, inlined.compile engine = .ok own → source.compile engine = .ok grammar →
              source.Mirrors (origin place entry.listed.length number) own grammar) ∧
    (source.listed.length ≤ idRange →
      ((∃ missing, source.compile engine = .error (.error (.unresolvedInclude missing))) ↔
        Met engine source.needs ∧ ∃ name, source.Dangling name) ∧
      ∀ missing, source.compile engine = .error (.error (.unresolvedInclude missing)) →
        source.Dangling missing) := by
  refine ⟨source.compile_unnamed, fun reference entry inlined means inlines few fewRegexes => ?_,
    Source.exists_unresolved_iff⟩
  obtain ⟨place, number, isNumber, replaces⟩ := Source.exists_replaces means inlines
  obtain ⟨fewer, fewerRegexes⟩ := replaces.size_le
  refine ⟨?_, place, number, isNumber, fun own grammar compiled wasCompiled => ?_⟩
  · rw [Source.exists_compile_iff few fewRegexes, replaces.compilable_iff,
      Source.exists_compile_iff (fewer.trans few) (fewerRegexes.trans fewRegexes)]
  · exact replaces.mirrors (makes_of_compile compiled).1 (makes_of_compile wasCompiled).1 few fewRegexes

/-- The rule of an entry that matches between characters. -/
def Rule.hollow : Rule := ⟨{ Head.blank with single := some "" }, []⟩

/-- A region that lists the entry of this name. -/
def Rule.regionOf (name : String) : Rule :=
  ⟨{ Head.blank with opening := some "", closing := some "" }, [.including name]⟩

/-- A grammar with an entry that only includes another one, and one that includes nothing there is. -/
def aliased : Source :=
  { Source.named "aliased" with
    rules := [.including "#hollow", .regionOf "#alias"]
    repository := [("alias", .including "#hollow"), ("ghost", .including "#gone"), ("hollow", .hollow)] }

/-- The same with the rule of an entry in place of an include of it. -/
def aliasedInlined : Source := { aliased with rules := [.hollow, .regionOf "#alias"] }

/-- The entry that only includes another one contributes nothing to the region, and the one that includes
nothing there is does no harm. -/
theorem compile_includes_aliased :
    (∃ grammar own place number, aliased.compile .backtracking = .ok grammar ∧
      aliased.unnamed.compile .backtracking = .ok grammar ∧
      aliasedInlined.compile .backtracking = .ok own ∧ aliased.resolve? "#hollow" = some number ∧
      aliased.Mirrors (origin place 1 number) own grammar ∧
      grammar.patterns.toList.map (·.children) = [[4, 1], [], [], [], []] ∧
      own.patterns.toList.map (·.children) = [[1, 2], [], [], [], [], []]) ∧
    ∃ missing, lost.compile .backtracking = .error (.error (.unresolvedInclude missing)) ∧
      lost.Dangling missing := by
  constructor
  · have lists : ((aliased.compile .backtracking).toOption.map fun grammar =>
        grammar.patterns.toList.map (·.children)) = some [[4, 1], [], [], [], []] := by decide +kernel
    have listsInlined : ((aliasedInlined.compile .backtracking).toOption.map fun grammar =>
        grammar.patterns.toList.map (·.children)) = some [[1, 2], [], [], [], [], []] := by
      decide +kernel
    obtain ⟨grammar, compiled, children⟩ := Fault.exists_of_toOption_map lists
    obtain ⟨own, compiledInlined, childrenInlined⟩ := Fault.exists_of_toOption_map listsInlined
    obtain ⟨drops, counts, -⟩ := compile_includes .backtracking aliased
    obtain ⟨-, place, number, means, mirrors⟩ := counts "#hollow" .hollow aliasedInlined rfl
      (.rules (.here rfl)) (by decide) (by decide)
    exact ⟨grammar, own, place, number, compiled, drops.trans compiled, compiledInlined, means,
      mirrors own grammar compiledInlined compiled, children, childrenInlined⟩
  · obtain ⟨refused, dangles⟩ := (compile_includes .backtracking lost).2.2 (by decide)
    obtain ⟨missing, failed⟩ := refused.mpr ⟨⟨fun need member => (nomatch member), by decide⟩, _,
      dangling_lost⟩
    exact ⟨missing, failed, dangles missing failed⟩

end Highlight.Grammar
