/-
**Compiling breaks in one way only.**

Grammar files may hold anything, and compiling looks up what it has numbered itself:

* `Source.Oversized`: of all that the rules need, the first that is not there is a list that is long
  enough for a group;
* `StaysInside`: every place that compiling looks up is there, and the root gets the first number;
* `Grammar.compile_faults`: **compiling breaks exactly for such a group**, gives a grammar or refuses the
  source otherwise, and never looks up a place that is not there.
-/

import Highlight.Proofs.Grammar.Numbers

namespace Highlight.Grammar

variable {engine : Regex.Engine}

open Compiler (idRange initial maxCaptures groupOfKey?)

/-! ### Groups -/

/-- The first of the needs of a source that is not met is for a group that no list of styles is long enough
for. -/
def Source.Oversized (engine : Regex.Engine) (source : Source) : Prop :=
  ∃ front key group back, source.needs = front ++ .group key :: back ∧ Met engine front ∧
    groupOfKey? key = some group ∧ maxCaptures < group + 1

/-- Only a group can break what compiling does. -/
theorem Tables.meet_eq_fault {tables : Tables} {need : Need} {fault : Fault}
    (broken : tables.meet engine need = .error (.fault fault)) :
    ∃ key group, need = .group key ∧ groupOfKey? key = some group ∧ maxCaptures < group + 1 := by
  cases need with
  | style name =>
    simp only [meet] at broken
    split at broken
    · cases broken
    · split at broken <;> cases broken
  | regex text =>
    simp only [meet] at broken
    split at broken <;> cases broken
  | group key =>
    cases means : groupOfKey? key with
    | none =>
      simp only [meet, means] at broken
      cases broken
    | some group =>
      simp only [meet, means] at broken
      split at broken
      · rename_i long
        exact ⟨key, group, rfl, means, long⟩
      · cases broken
  | kind id => cases broken

/-- **Compiling breaks exactly for a group that no list is long enough for.** -/
theorem exists_fault_iff {source : Source} :
    (∃ fault, source.compile engine = .error (.fault fault)) ↔ source.Oversized engine := by
  constructor
  · rintro ⟨fault, broken⟩
    rcases compile_eq_error broken with broken | ⟨_, cause, -, -, same⟩ | ⟨_, cause, -, -, same⟩
    · obtain ⟨front, need, back, tables, split, met, broken⟩ := written_eq_error_iff.mp broken
      obtain ⟨key, group, rfl, means, long⟩ := Tables.meet_eq_fault broken
      exact ⟨front, key, group, back, split, (Tables.holds_of_meetAll met).1, means, long⟩
    · cases same
    · cases same
  · rintro ⟨front, key, group, back, split, met, means, long⟩
    obtain ⟨tables, front_met⟩ := Tables.exists_meetAll met
    have broken : tables.meet engine (.group key) = .error (.fault .overflow) := by
      simp only [Tables.meet, means, if_pos long]
    have failed := written_eq_error_iff.mpr ⟨front, _, back, tables, split, front_met, broken⟩
    refine ⟨.overflow, ?_⟩
    unfold Source.compile
    rw [failed]
    rfl

/-! ### Places -/

/-- What has been compiled of the rules of a source knows all of its places. -/
structure StaysInside (compiler : Compiler) : Prop where
  paired : compiler.written.size = compiler.patterns.size
  /-- A flat list is begun at a place that is there, -/
  starts : ∀ index < compiler.patterns.size, index % idRange < compiler.written.size
  /-- goes on to such places only, -/
  targets : ∀ list ∈ compiler.written, ∀ ref ∈ list, ∀ id, compiler.target ref = .ok id →
    id < compiler.patterns.size
  /-- and lists nothing else. -/
  children : ∀ flat, compiler.resolved = .ok flat → ∀ pattern ∈ flat.patterns,
    ∀ child ∈ pattern.children, child < flat.patterns.size
  regexes : ∀ flat, compiler.resolved = .ok flat → ∀ pattern ∈ flat.patterns, ∀ id,
    id ∈ pattern.opening ∨ id ∈ pattern.closing → id < flat.regexes.size

namespace Compiler

variable {before after compiler : Compiler}

/-- A rule is filled in at a place that is there. -/
theorem rule_inside {source : Rule} {id : PatternId} (went : rule engine source before = .ok (id, after))
    (paired : before.written.size = before.patterns.size) :
    id < after.patterns.size ∧ after.written.size = after.patterns.size := by
  have outcome := rule_compiled source went
  obtain ⟨patterns, written⟩ := (rule_builds source went).size
  constructor
  · rw [outcome.number]
    exact (Nat.mod_le _ _).trans_lt outcome.more
  · rw [patterns, written, paired]

/-- Each group that a table names has its place in the list of styles. -/
theorem captures_inside {table : List (String × String)} {styles : List (Option StyleId)}
    (went : captures table before = .ok (styles, after)) :
    ∀ entry ∈ table, ∃ group < styles.length, groupOfKey? entry.1 = some group := by
  unfold captures at went
  obtain ⟨out, middle, folded, done⟩ := bind_eq_ok.mp went
  cases done
  refine foldlM_induction (motive := fun done out _ => ∀ entry ∈ done, ∃ group < out.toList.length,
      groupOfKey? entry.1 = some group)
    (fun {done item value before next after} inside went => ?_) (fun entry member => nomatch member) folded
  obtain ⟨key, name⟩ := item
  cases means : groupOfKey? key with
  | none =>
    simp only [means] at went
    cases went
  | some group =>
    simp only [means] at went
    split at went
    · cases went
    · obtain ⟨id, middle, styled, done⟩ := bind_eq_ok.mp went
      cases done
      simp only [Array.length_toList, Array.size_setIfInBounds, Array.size_append,
        Array.size_replicate] at inside ⊢
      intro entry member
      rcases List.mem_append.mp member with old | new
      · obtain ⟨other, there, same⟩ := inside entry old
        exact ⟨other, there.trans_le (Nat.le_add_right _ _), same⟩
      · rw [List.mem_singleton.mp new]
        exact ⟨group, by omega, means⟩

end Compiler

open Compiler

/-- What a name in an include means is the root or an entry of the repository. -/
theorem Compiler.resolve_eq_ok {compiler : Compiler} {name : String} {id : PatternId}
    (means : compiler.resolve name = .ok id) :
    id = rootPattern ∨ ∃ entry, (entry, id) ∈ compiler.repository := by
  unfold resolve at means
  split at means
  · cases means
    exact Or.inl rfl
  · split at means
    · split at means
      · rename_i found
        cases means
        exact Or.inr ⟨_, List.mem_of_find?_eq_some found⟩
      · cases means
    · cases means

/-- A flattened pattern is one that was there before, but for its children. -/
theorem Compiler.flattened_of_resolved {compiler flat : Compiler}
    (resolves : compiler.resolved = .ok flat) {pattern : Pattern}
    (member : pattern ∈ flat.patterns) :
    ∃ written ∈ compiler.patterns, ∃ id children, compiler.childrenOf id = .ok children ∧
      pattern = { written with children := children } := by
  obtain ⟨-, size, each⟩ := resolved_eq_ok resolves
  obtain ⟨index, here⟩ := Array.mem_iff_getElem?.mp member
  have inside : index < compiler.patterns.size := size ▸ (Array.getElem?_eq_some_iff.mp here).1
  obtain ⟨children, made, there⟩ := each index _ (Array.getElem?_eq_getElem inside)
  cases here.symm.trans there
  exact ⟨_, Array.getElem_mem inside, _, children, made, rfl⟩

/-- **What has been compiled of the rules of a source knows all of its places.** -/
theorem staysInside_of_written {source : Source} {compiler : Compiler}
    (went : source.written engine = .ok compiler) : StaysInside compiler := by
  obtain ⟨children, builds⟩ := builds_of_written went
  have indexed := (builds.indexed (indexed_initial source fun _ => True) fun _ _ _ _ _ _ => trivial).1
  have rooted : rootPattern < compiler.patterns.size := by
    rw [builds.size.1, Source.listed, List.length_append]
    exact Nat.lt_of_lt_of_le (Rule.listed_pos source.root)
      ((Nat.le_add_right _ _).trans (Nat.le_add_left _ _))
  have targets : ∀ list ∈ compiler.written, ∀ ref ∈ list, ∀ id, compiler.target ref = .ok id →
      id < compiler.patterns.size := by
    intro list isList ref isRef id means
    have lists := indexed.children list isList ref isRef
    cases ref with
    | pattern number =>
      cases means
      exact lists
    | «include» name =>
      rcases resolve_eq_ok means with rfl | ⟨entry, listed⟩
      · exact rooted
      · exact indexed.repository _ listed
  have bounded : ∀ id, ∀ child ∈ compiler.outline.children id, child < compiler.patterns.size := by
    intro id child member
    obtain ⟨ref, isRef, means⟩ := List.mem_filterMap.mp member
    obtain ⟨list, isList, isRef⟩ := exists_mem_written isRef
    exact targets list isList ref isRef child (target?_eq_some_iff.mp means)
  refine ⟨indexed.paired, fun index inside => ?_, targets, fun flat resolves pattern member child => ?_,
    fun flat resolves pattern member => ?_⟩
  · rw [indexed.paired]
    exact (Nat.mod_le _ _).trans_lt inside
  · obtain ⟨written, -, id, children, made, rfl⟩ := flattened_of_resolved resolves member
    intro isChild
    rw [(resolved_eq_ok resolves).2.1]
    have reached := ((flattens_of_childrenOf bounded made).mem_iff child).mp isChild
    rcases reached.1.mem_or_mem_children with listed | ⟨middle, listed⟩
    · exact bounded id child listed
    · exact bounded middle child listed
  · obtain ⟨written, isWritten, id, children, -, rfl⟩ := flattened_of_resolved resolves member
    rw [(resolved_eq_ok resolves).1]
    exact indexed.regexes written isWritten

/-- **Compiling breaks exactly for a group that no list is long enough for**, and never looks up a place
that is not there: neither where the root is numbered, a rule filled in or a group named, nor where the
children of patterns are flattened. -/
theorem compile_faults (engine : Regex.Engine) (source : Source) :
    ((∃ fault, source.compile engine = .error (.fault fault)) ↔ source.Oversized engine) ∧
    (∀ id compiler, rule engine source.root (initial source) = .ok (id, compiler) → id = rootPattern) ∧
    (∀ inner before id after, before.written.size = before.patterns.size →
      rule engine inner before = .ok (id, after) →
        id < after.patterns.size ∧ after.written.size = after.patterns.size) ∧
    (∀ table before styles after, captures table before = .ok (styles, after) →
      ∀ entry ∈ table, ∃ group < styles.length, groupOfKey? entry.1 = some group) ∧
    ∀ compiler, source.written engine = .ok compiler → StaysInside compiler :=
  ⟨exists_fault_iff, fun _ _ went => (rule_compiled _ went).number,
    fun _ _ _ _ paired went => rule_inside went paired, fun _ _ _ _ => captures_inside,
    fun _ => staysInside_of_written⟩

/-- A source with a key that means the largest of all groups. -/
def giant : Source :=
  { Source.named "giant" with
    rules := [⟨{ Head.blank with
      single := some "", captures := [("18446744073709551615", "x")] }, []⟩] }

/-- The largest group breaks compiling, and nothing in a crowd does. -/
theorem compile_faults_giant :
    (giant.Oversized .backtracking ∧ ∃ fault, giant.compile .backtracking = .error (.fault fault)) ∧
    ¬ (crowd 2).Oversized .backtracking ∧
    (∃ compiler, (crowd 2).written .backtracking = .ok compiler ∧ StaysInside compiler) ∧
    (∃ id after, rule .backtracking (crowd 2).root (initial (crowd 2)) = .ok (id, after) ∧
      id = rootPattern ∧ id < after.patterns.size ∧ after.written.size = after.patterns.size) ∧
    ∃ styles after, captures [("1", "x")] (initial giant) = .ok (styles, after) ∧
      ∀ entry ∈ [("1", "x")], ∃ group < styles.length, groupOfKey? entry.1 = some group := by
  have oversized : giant.Oversized .backtracking := by
    refine ⟨[.regex ""], "18446744073709551615", maxSize, _, rfl, ⟨?_, by decide⟩, by decide +kernel,
      by decide⟩
    intro need member
    rw [List.mem_singleton.mp member]
    exact ⟨_, rfl⟩
  obtain ⟨grammar, compiled, -⟩ :
      ∃ grammar, (crowd 2).compile .backtracking = .ok grammar ∧ _ := compile_crowd ⟨_, rfl, rfl⟩ 2
  obtain ⟨compiler, patterns, went, -⟩ := (makes_of_compile compiled).1
  obtain ⟨id, after, ruled, -⟩ := written_eq_ok went
  have named : ((captures [("1", "x")] (initial giant)).toOption.map Prod.fst) =
      some [none, some 1] := by decide +kernel
  obtain ⟨⟨styles, final⟩, captured, -⟩ := Fault.exists_of_toOption_map named
  obtain ⟨breaks, first, fills, groups, stays⟩ := compile_faults .backtracking (crowd 2)
  refine ⟨⟨oversized, (compile_faults .backtracking giant).1.mpr oversized⟩, fun isOversized => ?_,
    ⟨compiler, went, stays compiler went⟩, ⟨id, after, ruled, first id after ruled,
      fills _ _ id after rfl ruled⟩, styles, final, captured, groups _ _ styles final captured⟩
  obtain ⟨fault, broken⟩ := breaks.mpr isOversized
  cases compiled.symm.trans broken

end Highlight.Grammar
