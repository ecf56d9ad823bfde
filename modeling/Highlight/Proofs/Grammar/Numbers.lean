/-
**Numbers are cut where there are not enough of them.**

There are numbers for 65536 patterns and as many regexes. No grammar is refused for having more of them:
the numbers begin again from 0.

* `Source.owners`: the regexes of a source in the order in which they are compiled, each with the number of
  its rule;
* `Source.Refers`: each pattern has the number of its place and refers to the regexes of its own rule;
* `exists_compile`: a source without includes compiles if all that its rules need can be met;
* `crowd`: a source with as many rules and regexes as are asked for;
* `Grammar.compile_numbers`: **numbers are right exactly if there are enough of them**, and for any number
  of rules there is a source that compiles.
-/

import Highlight.Proofs.Grammar.References

namespace Highlight.Grammar

variable {engine : Regex.Engine}

open Compiler (idRange regexCount regexCount_cons)

/-! ### Whose the regexes are -/

namespace Rule

/-- The regexes of rules in the order in which they are compiled, each with the number of its rule, if the
first rule gets the number `next`. -/
def owners (next : PatternId) (rules : List Rule) : List (PatternId × String) :=
  (rules.zipIdx next).flatMap fun (rule, id) => rule.head.texts.map fun text => (id, text)

theorem owners_cons (next : PatternId) (rule : Rule) (rest : List Rule) :
    owners next (rule :: rest) =
      (rule.head.texts.map fun text => (next, text)) ++ owners (next + 1) rest := by
  unfold owners
  rw [List.zipIdx_cons, List.flatMap_cons]

theorem map_snd_owners (next : PatternId) (rules : List Rule) :
    (owners next rules).map Prod.snd = rules.flatMap fun rule => rule.head.texts := by
  induction rules generalizing next with
  | nil => rfl
  | cons rule rest ih =>
    rw [owners_cons, List.map_append, ih, List.flatMap_cons, List.map_map]
    exact congrArg (· ++ _) (List.map_id _)

/-- The regexes of a rule stand behind those of the rules before it. -/
theorem getElem?_owners {next : PatternId} {rules : List Rule} {place : Nat} {id : PatternId}
    {text : String} :
    (owners next rules)[place]? = some (id, text) ↔ ∃ index rule offset, id = next + index ∧
      rules[index]? = some rule ∧ rule.head.texts[offset]? = some text ∧
        place = regexCount (rules.take index) + offset := by
  induction rules generalizing next place with
  | nil =>
    constructor
    · intro here
      cases here
    · rintro ⟨index, rule, offset, -, here, -⟩
      cases here
  | cons first rest ih =>
    rw [owners_cons]
    rcases lt_or_ge place first.head.texts.length with inside | behind
    · rw [List.getElem?_append_left (by rwa [List.length_map]), List.getElem?_map]
      constructor
      · intro here
        obtain ⟨found, there, same⟩ := Option.map_eq_some_iff.mp here
        cases same
        exact ⟨0, first, place, rfl, rfl, there, (Nat.zero_add _).symm⟩
      · rintro ⟨index, rule, offset, rfl, here, there, rfl⟩
        cases index with
        | zero =>
          cases here
          rw [show regexCount ((first :: rest).take 0) = 0 from rfl, Nat.zero_add, there]
          rfl
        | succ index =>
          rw [List.take_succ_cons, regexCount_cons] at inside
          omega
    · rw [List.getElem?_append_right (by rwa [List.length_map]), List.length_map, ih]
      constructor
      · rintro ⟨index, rule, offset, rfl, here, there, same⟩
        refine ⟨index + 1, rule, offset, Nat.add_right_comm next 1 index, here, there, ?_⟩
        rw [List.take_succ_cons, regexCount_cons]
        omega
      · rintro ⟨index, rule, offset, rfl, here, there, rfl⟩
        cases index with
        | zero =>
          cases here
          have short := (List.getElem?_eq_some_iff.mp there).1
          rw [show regexCount ((first :: rest).take 0) = 0 from rfl] at behind
          omega
        | succ index =>
          refine ⟨index, rule, offset, (Nat.add_right_comm next 1 index).symm, here, there, ?_⟩
          rw [List.take_succ_cons, regexCount_cons]
          omega

end Rule

namespace Source

/-- The regexes of a source in the order in which they are compiled, each with the number of its rule. -/
def owners (source : Source) : List (PatternId × String) := Rule.owners 0 source.listed

theorem getElem?_owners {source : Source} {place : Nat} {id : PatternId} {text : String} :
    source.owners[place]? = some (id, text) ↔ ∃ rule offset, source.listed[id]? = some rule ∧
      rule.head.texts[offset]? = some text ∧
        place = regexCount (source.listed.take id) + offset := by
  unfold owners
  rw [Rule.getElem?_owners]
  constructor
  · rintro ⟨index, rule, offset, rfl, here, there, same⟩
    rw [Nat.zero_add]
    exact ⟨rule, offset, here, there, same⟩
  · rintro ⟨rule, offset, here, there, same⟩
    exact ⟨id, rule, offset, (Nat.zero_add _).symm, here, there, same⟩

/-- Each pattern has the number of its place and refers to the regexes of its own rule. -/
structure Refers (source : Source) (grammar : Grammar) : Prop where
  number : ∀ (id : PatternId) pattern, grammar.patterns[id]? = some pattern → pattern.id = id
  opening : ∀ (id : PatternId) rule pattern, source.listed[id]? = some rule →
    grammar.patterns[id]? = some pattern →
      pattern.opening.map (source.owners[·]?) = rule.head.opens.map fun text => some (id, text)
  closing : ∀ (id : PatternId) rule pattern, source.listed[id]? = some rule →
    grammar.patterns[id]? = some pattern →
      pattern.closing.map (source.owners[·]?) = rule.head.closing.map fun text => some (id, text)

end Source

/-- A regex of a rule of some kind is that of the opening match or that of the closing one. -/
theorem Head.opens_or_closes {head : Head} (kind : head.isMixed = false) {offset : Nat} {text : String}
    (here : head.texts[offset]? = some text) :
    offset = 0 ∧ head.opens = some text ∨ offset = 1 ∧ head.closing = some text := by
  unfold texts at here
  cases opens : head.opens with
  | none =>
    cases closes : head.closing with
    | none =>
      rw [opens, closes] at here
      cases here
    | some other =>
      obtain ⟨first, same⟩ := exists_opens kind closes
      cases opens.symm.trans same
  | some first =>
    rw [opens] at here
    cases offset with
    | zero => exact Or.inl ⟨rfl, here⟩
    | succ offset =>
      cases closes : head.closing with
      | none =>
        rw [closes] at here
        cases here
      | some other =>
        rw [closes] at here
        cases offset with
        | zero => exact Or.inr ⟨rfl, here⟩
        | succ offset => cases here

/-- Rules of some kind need exactly their regexes to compile. -/
theorem texts_of_met {next : Nat} {rules : List Rule}
    (fits : ∀ need ∈ needsFrom next rules, need.Fits engine) :
    (needsFrom next rules).filterMap Need.text? = rules.flatMap fun rule => rule.head.texts := by
  induction rules generalizing next with
  | nil => rfl
  | cons rule rest ih =>
    rw [needsFrom, List.forall_mem_append] at fits
    rw [needsFrom, List.filterMap_append, ih fits.2, List.flatMap_cons]
    refine congrArg (· ++ _) ?_
    have kind : rule.head.isMixed = false := Head.kind_of_fits fits.1
    have named : (rule.head.name.toList.map Need.style).filterMap Need.text? = [] := by
      cases rule.head.name <;> rfl
    have own : (rule.head.texts.map Need.regex).filterMap Need.text? = rule.head.texts := by
      rw [List.filterMap_map]
      exact List.filterMap_some
    unfold Head.needs
    rw [kind, if_neg Bool.false_ne_true, List.filterMap_append, List.filterMap_append,
      List.filterMap_append, named, own, Compiler.text?_tableNeeds, Compiler.text?_tableNeeds,
      List.append_nil, List.append_nil, List.nil_append]

namespace Source.Makes

variable {source : Source} {grammar : Grammar} (made : source.Makes engine grammar)
include made

/-- The regexes of a grammar are those of its rules. -/
theorem regexes : grammar.regexes.toList.map (·.source) = source.owners.map Prod.snd := by
  obtain ⟨compiler, patterns, went, -, rfl⟩ := made
  obtain ⟨met, holds⟩ := holds_of_written went
  unfold Source.owners
  rw [Rule.map_snd_owners, ← texts_of_met met.fits]
  refine (List.forall₂_eq_eq_eq ▸ List.forall₂_map_right_iff.mpr ?_ : _ = _).symm
  exact holds.regexes.imp fun text regex compiles => (Compiler.source_of_compile compiles).symm

/-- **Numbers are right if there are enough of them.** -/
theorem refers (few : grammar.patterns.size ≤ idRange)
    (fewRegexes : grammar.regexes.size ≤ idRange) : source.Refers grammar := by
  have described : ∀ (id : PatternId) rule pattern, source.listed[id]? = some rule →
      grammar.patterns[id]? = some pattern →
        Describes grammar.tables rule.head (regexCount (source.listed.take id)) pattern := by
    intro id rule pattern isRule here
    obtain ⟨found, there, -, told⟩ := made.describes few isRule
    cases here.symm.trans there
    exact told
  refine ⟨(made.carries few fewRegexes).number, fun id rule pattern isRule here => ?_,
    fun id rule pattern isRule here => ?_⟩
  · rw [((described id rule pattern isRule here).opening_eq fewRegexes).1, Option.map_map]
    cases opens : rule.head.opens with
    | none => rfl
    | some text =>
      refine congrArg some (Source.getElem?_owners.mpr ⟨rule, 0, isRule, ?_, rfl⟩)
      unfold Head.texts
      rw [opens]
      rfl
  · have told := described id rule pattern isRule here
    rw [(told.closing_eq fewRegexes).1, Option.map_map]
    cases closes : rule.head.closing with
    | none => rfl
    | some text =>
      obtain ⟨other, opens⟩ := Head.exists_opens told.kind closes
      refine congrArg some (Source.getElem?_owners.mpr ⟨rule, 1, isRule, ?_, rfl⟩)
      unfold Head.texts
      rw [opens, closes]
      rfl

/-- **Numbers are right only if there are enough of them**: the first one too many begins again from 0. -/
theorem size_of_refers (refers : source.Refers grammar) :
    grammar.patterns.size ≤ idRange ∧ grammar.regexes.size ≤ idRange := by
  have few : grammar.patterns.size ≤ idRange := by
    by_contra many
    have inside : idRange < grammar.patterns.size := Nat.not_le.mp many
    have here := Array.getElem?_eq_getElem inside
    have number := refers.number idRange _ here
    rw [made.number here, Nat.mod_self] at number
    cases number
  refine ⟨few, ?_⟩
  by_contra many
  have inside : idRange < (source.owners.map Prod.snd).length := by
    rw [← made.regexes, List.length_map, Array.length_toList]
    exact Nat.not_le.mp many
  rw [List.length_map] at inside
  obtain ⟨⟨id, text⟩, owned⟩ : ∃ owner, source.owners[idRange]? = some owner :=
    ⟨_, List.getElem?_eq_getElem inside⟩
  obtain ⟨rule, offset, isRule, there, place⟩ := Source.getElem?_owners.mp owned
  obtain ⟨pattern, here, -, told⟩ := made.describes few isRule
  -- The number 0 would have to be that of a regex of this rule, whose regexes come much later.
  have first : source.owners[0]? = some (id, text) → regexCount (source.listed.take id) = 0 := by
    intro cut
    obtain ⟨-, other, -, -, same⟩ := Source.getElem?_owners.mp cut
    exact Nat.eq_zero_of_add_eq_zero_right same.symm
  rcases Head.opens_or_closes told.kind there with ⟨rfl, opens⟩ | ⟨rfl, closes⟩
  · have refer := refers.opening id rule pattern isRule here
    rw [told.opening, opens, ← Nat.add_zero (regexCount _), ← place, Nat.mod_self] at refer
    have start := first (Option.some.inj refer)
    rw [start] at place
    cases place
  · have refer := refers.closing id rule pattern isRule here
    rw [told.closing, closes, ← place, Nat.mod_self] at refer
    have start := first (Option.some.inj refer)
    rw [start] at place
    cases place

end Source.Makes

/-! ### Sources of any size -/

/-- Without includes there are flat lists. -/
theorem exists_resolved {source : Source} {compiler : Compiler}
    (went : source.written engine = .ok compiler)
    (plain : ∀ rule ∈ source.listed, ∀ inner ∈ rule.rules, inner.head.reference = none) :
    ∃ flat, compiler.resolved = .ok flat := by
  cases outcome : compiler.resolved with
  | ok flat => exact ⟨flat, rfl⟩
  | error cause =>
    obtain ⟨children, builds⟩ := Compiler.builds_of_written went
    have indexed := (builds.indexed (Compiler.indexed_initial source fun _ => False)
      fun rule member inner isInner name included => by
        cases (plain rule member inner isInner).symm.trans included).1
    obtain ⟨id, failed⟩ := Compiler.resolved_eq_error outcome
    rcases Fault.bind_eq_error.mp failed with failed | ⟨found, -, done⟩
    · obtain ⟨index, ref, isRef, failed⟩ := Compiler.exists_of_expand_error failed
      obtain ⟨name, rfl, -⟩ := Compiler.exists_of_target_error failed
      obtain ⟨list, isList, isRef⟩ := Compiler.exists_mem_written isRef
      exact (indexed.children list isList _ isRef).elim
    · cases done

/-- What children begin with are regexes of the grammar. -/
theorem mem_regexes_of_openings {grammar : Grammar} {pattern : Pattern} {regex : Regex}
    (member : regex ∈ (grammar.openings pattern).map (·.2)) : regex ∈ grammar.regexes := by
  obtain ⟨entry, opens, rfl⟩ := List.mem_map.mp member
  unfold openings at opens
  obtain ⟨child, -, made⟩ := List.mem_filterMap.mp opens
  obtain ⟨other, -, made⟩ := Option.bind_eq_some_iff.mp made
  obtain ⟨opening, -, made⟩ := Option.bind_eq_some_iff.mp made
  obtain ⟨found, here, done⟩ := Option.bind_eq_some_iff.mp made
  cases done
  exact Array.mem_of_getElem? here

/-- **A source without includes compiles if all that its rules need can be met**, and its regexes fit into
sets. -/
theorem exists_compile {source : Source} (met : Met engine source.needs)
    (plain : ∀ rule ∈ source.listed, ∀ inner ∈ rule.rules, inner.head.reference = none)
    (members : ∀ text ∈ source.needs.filterMap Need.text?, ∀ regex, engine.compile text = .ok regex →
      regex.memberError? = none) : ∃ grammar, source.compile engine = .ok grammar := by
  obtain ⟨compiler, went⟩ := exists_written_iff.mpr met
  obtain ⟨flat, resolves⟩ := exists_resolved went plain
  cases outcome : source.compile engine with
  | ok grammar => exact ⟨grammar, rfl⟩
  | error failure =>
    rcases compile_eq_error outcome with
      failed | ⟨other, cause, same, failed, -⟩ | ⟨grammar, cause, made, fails, -⟩
    · cases went.symm.trans failed
    · cases went.symm.trans same
      cases resolves.symm.trans failed
    · obtain ⟨other, patterns, same, -, rfl⟩ := made
      cases went.symm.trans same
      unfold setError? at fails
      obtain ⟨pattern, -, fails⟩ := List.exists_of_findSome?_eq_some fails
      obtain ⟨error, fails, -⟩ := Option.map_eq_some_iff.mp fails
      rw [Regex.Engine.setError?_eq_none_iff.mpr] at fails
      · cases fails
      · intro regex member
        obtain ⟨text, needed, compiles⟩ : ∃ text ∈ source.needs.filterMap Need.text?,
            engine.compile text = .ok regex := by
          have known : regex ∈ compiler.regexes.toList :=
            Array.mem_toList_iff.mpr (mem_regexes_of_openings member)
          obtain ⟨place, here⟩ := List.mem_iff_getElem?.mp known
          have pairs := (holds_of_written went).2.regexes
          obtain ⟨text, there, compiles⟩ := Compiler.exists_getElem?_of_forall₂ pairs.flip here
          exact ⟨text, List.mem_of_getElem? there, compiles⟩
        exact members text needed regex compiles

/-- A source with so many rules that match between characters. -/
def crowd (count : Nat) : Source :=
  { Source.named "crowd" with
    rules := List.replicate count ⟨{ Head.blank with single := some "" }, []⟩ }

theorem listed_crowd (count : Nat) :
    (crowd count).listed = (crowd count).root :: (crowd count).rules := by
  have all : ∀ count, Rule.listedAll (List.replicate count ⟨{ Head.blank with single := some "" }, []⟩) =
      List.replicate count ⟨{ Head.blank with single := some "" }, []⟩ := by
    intro count
    induction count with
    | zero => rfl
    | succ count ih =>
      rw [List.replicate_succ, Rule.listedAll, ih]
      rfl
  unfold Source.listed
  rw [Rule.listed_eq]
  exact (List.append_nil _).trans (congrArg _ (all count))

theorem needs_crowd (count : Nat) : (crowd count).needs = List.replicate count (.regex "") := by
  have all : ∀ count next, needsFrom next
      (List.replicate count ⟨{ Head.blank with single := some "" }, []⟩) =
        List.replicate count (.regex "") := by
    intro count
    induction count with
    | zero => exact fun next => rfl
    | succ count ih =>
      intro next
      rw [List.replicate_succ, needsFrom, ih, List.replicate_succ]
      rfl
  unfold Source.needs
  rw [listed_crowd, needsFrom]
  exact all count 1

/-- **A source compiles however many rules and regexes it has**, if there is a regex that does. -/
theorem compile_crowd (accepts : ∃ regex, engine.compile "" = .ok regex ∧ regex.memberError? = none)
    (count : Nat) : ∃ grammar, (crowd count).compile engine = .ok grammar ∧
      grammar.patterns.size = count + 1 ∧ grammar.regexes.size = count := by
  obtain ⟨empty, compiles, fits⟩ := accepts
  have texts : (crowd count).needs.filterMap Need.text? = List.replicate count "" := by
    rw [needs_crowd]
    exact List.filterMap_replicate_of_some rfl
  have met : Met engine (crowd count).needs := by
    constructor
    · intro need member
      rw [needs_crowd] at member
      rw [List.eq_of_mem_replicate member]
      exact ⟨empty, compiles⟩
    · rw [needs_crowd, styleTable, List.filterMap_replicate_of_none rfl]
      decide
  obtain ⟨grammar, compiled⟩ := exists_compile met (fun rule member inner isInner => by
      rw [listed_crowd] at member
      rcases List.mem_cons.mp member with rfl | member
      · rw [List.eq_of_mem_replicate isInner]
        rfl
      · rw [List.eq_of_mem_replicate member] at isInner
        cases isInner)
    fun text member regex compiled => by
      rw [texts] at member
      rw [List.eq_of_mem_replicate member] at compiled
      cases compiles.symm.trans compiled
      exact fits
  obtain ⟨size, regexes⟩ := (makes_of_compile compiled).1.size
  refine ⟨grammar, compiled, ?_, ?_⟩
  · rw [size, listed_crowd, List.length_cons]
    exact congrArg Nat.succ List.length_replicate
  · have same := (texts_of_met met.fits).symm.trans texts
    exact regexes.trans ((congrArg List.length same).trans List.length_replicate)

/-- **Numbers are right exactly if there are enough of them**, each one being cut otherwise. However many
rules and regexes there are, a source is not refused for it: an engine that accepts the empty regex, also in
sets, is enough for sources of any number of rules. -/
theorem compile_numbers (engine : Regex.Engine) (source : Source) :
    (∀ grammar, source.compile engine = .ok grammar →
      grammar.patterns.size = source.listed.length ∧
      grammar.regexes.toList.map (·.source) = source.owners.map Prod.snd ∧
      (∀ (id : PatternId) pattern, grammar.patterns[id]? = some pattern → pattern.id = id % idRange) ∧
      (source.Refers grammar ↔ grammar.patterns.size ≤ idRange ∧ grammar.regexes.size ≤ idRange)) ∧
    ((∃ regex, engine.compile "" = .ok regex ∧ regex.memberError? = none) →
      ∀ count, ∃ grammar, (crowd count).compile engine = .ok grammar ∧
        grammar.patterns.size = count + 1 ∧ grammar.regexes.size = count) := by
  refine ⟨fun grammar compiled => ?_, compile_crowd⟩
  obtain ⟨made, -⟩ := makes_of_compile compiled
  refine ⟨made.size.1, made.regexes, fun id pattern => made.number, made.size_of_refers, ?_⟩
  exact fun ⟨few, fewRegexes⟩ => made.refers few fewRegexes

/-- One rule has its own numbers, but with 65537 of them two share one. -/
theorem compile_numbers_crowd :
    (∃ grammar, (crowd 1).compile .backtracking = .ok grammar ∧ (crowd 1).Refers grammar) ∧
    ∃ grammar, (crowd idRange).compile .backtracking = .ok grammar ∧ grammar.patterns.size = idRange + 1 ∧
      ¬ (crowd idRange).Refers grammar := by
  obtain ⟨small, compiledSmall, size, regexes⟩ :=
    (compile_numbers .backtracking (crowd 1)).2 ⟨_, rfl, rfl⟩ 1
  obtain ⟨large, compiledLarge, sizeLarge, -⟩ :=
    (compile_numbers .backtracking (crowd idRange)).2 ⟨_, rfl, rfl⟩ idRange
  refine ⟨⟨small, compiledSmall, ?_⟩, large, compiledLarge, sizeLarge, fun refers => ?_⟩
  · refine ((compile_numbers .backtracking _).1 small compiledSmall).2.2.2.mpr ⟨?_, ?_⟩
    · rw [size]
      decide
    · rw [regexes]
      decide
  · have few := (((compile_numbers .backtracking _).1 large compiledLarge).2.2.2.mp refers).1
    rw [sizeLarge] at few
    exact absurd few (Nat.not_succ_le_self idRange)

end Highlight.Grammar
