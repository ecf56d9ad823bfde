/-
**What a name that is not known falls back to.**

The plain grammar of a registry is found by its name, which grammars, file types and aliases bind like
any other name. So the fallback is what the last of them has made of it:

* `Registry.Operation.Binds`: an operation makes a name stand for a grammar;
* `Registry.Gives`: of several operations the last one that binds a name gives it a grammar;
* `Registry.get?_run_iff`: what a name stands for is what they give it;
* `Registry.getOrPlain_patterns`: **the fallback has patterns exactly if the plain name was given a
  grammar that has some**, and a text is given the default style throughout if it has none.
-/

import Highlight.Proofs.Grammar.Gaps
import Highlight.Proofs.Registry.Names
import Highlight.Proofs.Scan.Blank
import Highlight.Proofs.Scan.Tokens

namespace Highlight.Registry

variable {libraries : Libraries} {registry : Registry} {operation : Operation} {name : String}
  {grammar : Grammar}

/-! ### The last grammar of a name -/

/-- An operation on a registry makes a name stand for a grammar: one of its name, one that has it as a
file type when it is free, or the one of a known name that it is an alias of. -/
inductive Operation.Binds (libraries : Libraries) (before : Registry) (operation : Operation) :
    String → Grammar → Prop
  | named {grammar : Grammar} (adds : operation.adds? libraries = some grammar) :
      Binds libraries before operation grammar.name grammar
  | fileType {grammar : Grammar} {name : String} (adds : operation.adds? libraries = some grammar)
      (listed : name ∈ grammar.fileTypes) (free : before.contains name = false) :
      Binds libraries before operation name grammar
  | aliased {grammar : Grammar} {name : String} (member : name ∈ operation.others)
      (stands : (before.addGrammar? (operation.adds? libraries)).get? operation.known = some grammar) :
      Binds libraries before operation name grammar

/-- Of several operations on a new registry the last one that binds a name gives it a grammar. -/
def Gives (libraries : Libraries) (operations : List Operation) (name : String) (grammar : Grammar) :
    Prop :=
  ∃ front operation back, operations = front ++ operation :: back ∧
    operation.Binds libraries (run libraries front) name grammar ∧
    ∀ between later rest, back = between ++ later :: rest →
      ∀ other, ¬ later.Binds libraries (run libraries (front ++ operation :: between)) name other

theorem get?_eq_map (registry : Registry) (name : String) :
    registry.get? name = (registry.find? name).map Prod.snd := by
  unfold get? find?
  cases registry.index? name with
  | none => rfl
  | some index =>
    show registry.grammars[index]? =
      (registry.grammars[index]?.bind fun grammar => some (index, grammar)).map Prod.snd
    cases registry.grammars[index]? <;> rfl

theorem exists_find?_of_get? (found : registry.get? name = some grammar) :
    ∃ index, registry.find? name = some (index, grammar) := by
  rw [get?_eq_map] at found
  obtain ⟨⟨index, other⟩, there, same⟩ := Option.map_eq_some_iff.mp found
  cases same
  exact ⟨index, there⟩

namespace Whole

variable (whole : registry.Whole libraries) (faithful : libraries.archive.Faithful)
include whole faithful

/-- A name stands for the grammar that an operation binds it to. -/
theorem get?_step_of_binds (binds : operation.Binds libraries registry name grammar) :
    (registry.step libraries operation).get? name = some grammar := by
  rw [get?_eq_map]
  cases binds with
  | named adds =>
    rw [whole.find?_step_of_adds? faithful adds (.inl rfl), whole.find?_addGrammar, if_pos rfl]
    rfl
  | fileType adds listed free =>
    rw [whole.find?_step_of_adds? faithful adds (.inr listed), whole.find?_addGrammar, if_pos listed]
    split
    · rfl
    · rw [find?_eq_none_of_index? (index?_of_not_contains free)]
      rfl
  | aliased member stands =>
    obtain ⟨index, there⟩ := exists_find?_of_get? stands
    rw [whole.find?_step faithful, if_pos member, there]
    rfl

/-- A name that an operation does not bind stands for what it stood for. -/
theorem get?_step_of_not_binds (free : ∀ grammar, ¬ operation.Binds libraries registry name grammar) :
    (registry.step libraries operation).get? name = registry.get? name := by
  rw [get?_eq_map, get?_eq_map]
  by_contra changed
  have changed : (registry.step libraries operation).find? name ≠ registry.find? name :=
    fun same => changed (congrArg _ same)
  rcases whole.find?_step_ne faithful changed with ⟨grammar, adds, own | ⟨listed, unbound⟩, -⟩ |
    ⟨member, ⟨index, grammar⟩, there, -⟩
  · exact free grammar (own ▸ .named adds)
  · exact free grammar (.fileType adds listed unbound)
  · refine free grammar (.aliased member ?_)
    rw [get?_eq_map, ← whole.find?_step_known faithful, there]
    rfl

end Whole

/-! ### The last operation of several -/

section Last

variable {front : List Operation} {last : Operation}

/-- An entry of a list is the last one, or what is behind it ends with the last one. -/
theorem split_last {α : Type} {front before back : List α} {last entry : α}
    (split : front ++ [last] = before ++ entry :: back) :
    (back = [] ∧ before = front ∧ entry = last) ∨
      ∃ between, back = between ++ [last] ∧ front = before ++ entry :: between := by
  rcases List.eq_nil_or_concat' back with rfl | ⟨between, other, rfl⟩
  · obtain ⟨rfl, same⟩ := List.append_inj' split rfl
    cases same
    exact .inl ⟨rfl, rfl, rfl⟩
  · rw [← List.cons_append, ← List.append_assoc] at split
    obtain ⟨rfl, same⟩ := List.append_inj' split rfl
    cases same
    exact .inr ⟨between, rfl, rfl⟩

/-- Where the last operation binds a name it is the one that gives it a grammar. -/
theorem gives_iff_binds {other : Grammar} (binds : last.Binds libraries (run libraries front) name other) :
    Gives libraries (front ++ [last]) name grammar ↔
      last.Binds libraries (run libraries front) name grammar := by
  constructor
  · rintro ⟨before, operation, back, split, binding, only⟩
    rcases split_last split with ⟨-, rfl, rfl⟩ | ⟨between, rfl, rfl⟩
    · exact binding
    · exact absurd binds (only between last [] rfl other)
  · intro binding
    exact ⟨front, last, [], rfl, binding, fun between later rest none => by simp at none⟩

/-- Where the last operation does not bind a name, those before it give it what they gave it. -/
theorem gives_iff_of_not_binds (free : ∀ other, ¬ last.Binds libraries (run libraries front) name other) :
    Gives libraries (front ++ [last]) name grammar ↔ Gives libraries front name grammar := by
  constructor
  · rintro ⟨before, operation, back, split, binding, only⟩
    rcases split_last split with ⟨-, rfl, rfl⟩ | ⟨between, rfl, rfl⟩
    · exact absurd binding (free grammar)
    · refine ⟨before, operation, between, rfl, binding, fun middle later rest same => ?_⟩
      exact only middle later (rest ++ [last]) (by rw [same]; simp)
  · rintro ⟨before, operation, back, rfl, binding, only⟩
    refine ⟨before, operation, back ++ [last], by simp, binding, fun between later rest split => ?_⟩
    rcases split_last split with ⟨-, rfl, rfl⟩ | ⟨middle, -, rfl⟩
    · exact free
    · exact only between later middle rfl

end Last

/-- What a name stands for is what the operations on a new registry have given it. -/
theorem get?_run_iff (faithful : libraries.archive.Faithful) {operations : List Operation} :
    (run libraries operations).get? name = some grammar ↔ Gives libraries operations name grammar := by
  induction operations using List.reverseRecOn with
  | nil =>
    constructor
    · intro found
      cases found
    · rintro ⟨front, operation, back, split, -⟩
      cases front <;> cases split
  | append_singleton front last ih =>
    have whole := whole_run faithful front
    have after : run libraries (front ++ [last]) = (run libraries front).step libraries last :=
      run_append front [last]
    rw [after]
    by_cases bound : ∃ other, last.Binds libraries (run libraries front) name other
    · obtain ⟨other, binds⟩ := bound
      rw [whole.get?_step_of_binds faithful binds, gives_iff_binds binds]
      constructor
      · intro same
        cases same
        exact binds
      · intro binding
        rw [← whole.get?_step_of_binds faithful binds, whole.get?_step_of_binds faithful binding]
    · have free : ∀ other, ¬ last.Binds libraries (run libraries front) name other := not_exists.mp bound
      rw [whole.get?_step_of_not_binds faithful free, gives_iff_of_not_binds free, ih]

/-! ### The fallback -/

/-- A name that is not known falls back to what the plain name stands for. -/
theorem getOrPlain_of_unknown (unknown : registry.contains name = false) :
    registry.getOrPlain name = (registry.get? plainName).getD (.plain plainName) := by
  have none : registry.get? name = none := by
    rw [get?_eq_map, find?_eq_none_of_index? (index?_of_not_contains unknown)]
    rfl
  rw [getOrPlain, none, Option.none_or]

/-- A compiled grammar without patterns gives every text the default style, if there are numbers for all
of its rules. -/
theorem highlight_of_compile {engine : Regex.Engine} {source : Grammar.Source}
    (compiles : source.compile engine = .ok grammar)
    (few : grammar.patterns.size ≤ Grammar.Compiler.idRange) (lawful : grammar.Lawful)
    (plain : grammar.hasPatterns = false) {text : Text} (held : text.Held) {unit : Nat}
    (small : unit ≤ maxSize) :
    grammar.highlight text unit = .ok (Array.replicate text.size defaultStyle) := by
  have wellFormed := Grammar.wellFormed_of_compile compiles
  obtain ⟨root, here, closing, unstyled⟩ := Grammar.root_of_compile compiles few
  obtain ⟨styles, went, size⟩ := Grammar.exists_highlight wellFormed lawful held small
  have default := Grammar.highlight_of_plain here closing unstyled plain wellFormed lawful held went
  rw [went, default, size]

/-- **What the fallback highlights.** Whatever operations have made a registry, a name that is not
known falls back to a grammar with patterns exactly if the last operation that has bound the plain
name has given it one with patterns. If there is no such operation the fallback gives every text the
default style. -/
theorem getOrPlain_patterns (libraries : Libraries) (faithful : libraries.archive.Faithful)
    (operations : List Operation) (unknown : (run libraries operations).contains name = false) :
    (((run libraries operations).getOrPlain name).hasPatterns = true ↔
      ∃ grammar, Gives libraries operations plainName grammar ∧ grammar.hasPatterns = true) ∧
    ((¬ ∃ grammar, Gives libraries operations plainName grammar ∧ grammar.hasPatterns = true) →
      ((run libraries operations).getOrPlain name).patterns.size ≤ Grammar.Compiler.idRange →
      ((run libraries operations).getOrPlain name).Lawful →
      ∀ text : Text, text.Held → ∀ unit ≤ maxSize,
        ((run libraries operations).getOrPlain name).highlight text unit =
          .ok (Array.replicate text.size defaultStyle)) := by
  have patterns : ((run libraries operations).getOrPlain name).hasPatterns = true ↔
      ∃ grammar, Gives libraries operations plainName grammar ∧ grammar.hasPatterns = true := by
    rw [getOrPlain_of_unknown unknown]
    cases bound : (run libraries operations).get? plainName with
    | some grammar =>
      have gives := (get?_run_iff faithful).mp bound
      refine ⟨fun has => ⟨grammar, gives, has⟩, ?_⟩
      rintro ⟨other, givesToo, has⟩
      cases bound.symm.trans ((get?_run_iff faithful).mpr givesToo)
      exact has
    | none =>
      refine ⟨fun has => absurd has (by decide), ?_⟩
      rintro ⟨other, gives, -⟩
      cases bound.symm.trans ((get?_run_iff faithful).mpr gives)
  refine ⟨patterns, fun free few lawful text held unit small => ?_⟩
  obtain ⟨source, compiles⟩ := (whole_run faithful operations).compiled.getOrPlain name
  have plain : ((run libraries operations).getOrPlain name).hasPatterns = false := by
    rw [← Bool.not_eq_true, patterns]
    exact free
  exact highlight_of_compile compiles few lawful plain held small

/-- A grammar with a rule is added, and the plain name becomes an alias of it. -/
def gapsAsPlain : List Operation := [.addBytes Grammar.gapsFile, .addAlias "gaps" plainName]

theorem run_gapsAsPlain :
    run .builtin gapsAsPlain = (empty.addGrammar .gaps).addAlias "gaps" plainName := by
  have loaded : Libraries.builtin.loadGrammar Grammar.gapsFile = .ok .gaps := by
    unfold Libraries.loadGrammar
    rw [show Libraries.builtin.readGrammar = Grammar.Source.read from rfl, Grammar.read_gapsFile]
    exact Grammar.compile_gaps
  have added : empty.step .builtin (.addBytes Grammar.gapsFile) = empty.addGrammar .gaps := by
    rw [step, Operation.apply, addBytes, loaded]
    rfl
  rw [run, gapsAsPlain, List.foldl_cons, added]
  rfl

/-- Where an alias of a grammar with a rule takes the plain name over, other names fall back to that
grammar; where only the plain grammar has been added, all texts have the default style. -/
theorem getOrPlain_patterns_gaps :
    ((run .builtin gapsAsPlain).contains "rust" = false ∧
      ((run .builtin gapsAsPlain).getOrPlain "rust").hasPatterns = true) ∧
    (run .builtin [.addPlain ["txt"]]).contains "rust" = false ∧
      ∀ text : Text, text.Held → ∀ unit ≤ maxSize,
        ((run .builtin [.addPlain ["txt"]]).getOrPlain "rust").highlight text unit =
          .ok (Array.replicate text.size defaultStyle) := by
  have unknown : (run .builtin gapsAsPlain).contains "rust" = false := by
    rw [run_gapsAsPlain]
    decide
  have gives : Gives .builtin gapsAsPlain plainName .gaps := by
    rw [← get?_run_iff Archive.faithful_compact, run_gapsAsPlain]
    rfl
  have unknownToo : (run .builtin [.addPlain ["txt"]]).contains "rust" = false := by decide
  obtain ⟨patterns, rest⟩ :=
    getOrPlain_patterns .builtin Archive.faithful_compact [.addPlain ["txt"]] unknownToo
  have plain : (run .builtin [.addPlain ["txt"]]).getOrPlain "rust" = .plain plainName := by rfl
  have given := getOrPlain_patterns .builtin Archive.faithful_compact _ unknown
  refine ⟨⟨unknown, given.1.mpr ⟨.gaps, gives, rfl⟩⟩, unknownToo, ?_⟩
  refine rest (fun given => ?_) (by rw [plain]; decide)
    (Grammar.lawful_of_no_regex (by rw [plain]; rfl))
  have has := patterns.mpr given
  rw [plain] at has
  cases has

end Highlight.Registry
