/-
**What names stand for, over the life of a registry.**

A registry is added to, given aliases, stored and read again, and some of this may fail. All that
happens to its names is told by two steps: a grammar is added, and other names take over what a
known one stands for.

* `Registry.Operation`, `Registry.run`: the operations, and what several of them lead to;
* `Registry.index?_addGrammar`, `Registry.index?_addAliases`: what the two steps do to each name;
* `Registry.Whole`: grammars have been compiled, and names stand for grammars that are there;
* `Registry.Whole.step_alike`: every operation is like the two steps, one after the other;
* `Registry.run_rebinds`: **names go on standing for grammars, and they are bound anew only by their
  grammar, by a file type that was free or by an alias**.
-/

import Highlight.CommandLine.Builtin
import Highlight.Proofs.Registry.Stored

namespace Highlight.Registry

variable {libraries : Libraries} {registry : Registry}

/-! ### Operations -/

/-- The grammar that some bytes hold, if they hold one that compiles. -/
def grammarOf? (libraries : Libraries) (bytes : ByteArray) : Option Grammar :=
  (libraries.loadGrammar bytes).toOption

/-- An operation on a registry. -/
inductive Operation where
  | addBytes (bytes : ByteArray)
  /-- The content of a file, if it can be read. -/
  | addFile (content : Option ByteArray)
  | addPlain (aliases : List String)
  | addAlias (known other : String)
  /-- The registry is stored and read again. -/
  | reload

namespace Operation

/-- What an operation makes of a registry. -/
def apply (libraries : Libraries) (registry : Registry) : Operation → Except Failure Registry
  | addBytes bytes => registry.addBytes libraries bytes
  | addFile content => registry.addFile libraries content
  | addPlain aliases => registry.addPlain libraries.engine aliases
  | addAlias known other => .ok (registry.addAlias known other)
  | reload => Failure.ofError (load libraries (registry.store libraries.archive))

/-- The grammar that an operation adds, if it adds one. -/
def adds? (libraries : Libraries) : Operation → Option Grammar
  | addBytes bytes => grammarOf? libraries bytes
  | addFile content => content.bind (grammarOf? libraries)
  | addPlain _ => some (.plain plainName)
  | _ => none

/-- The name whose grammar other names take over. -/
def known : Operation → String
  | addAlias known _ => known
  | _ => plainName

/-- The names that take over the grammar of the known one. -/
def others : Operation → List String
  | addPlain aliases => aliases
  | addAlias _ other => [other]
  | _ => []

end Operation

/-- The registry after an operation, which leaves it as it was if it fails. -/
def step (libraries : Libraries) (registry : Registry) (operation : Operation) : Registry :=
  (operation.apply libraries registry).toOption.getD registry

/-- What operations make of a new registry, one after the other. -/
def run (libraries : Libraries) (operations : List Operation) : Registry :=
  operations.foldl (step libraries) empty

theorem run_append (operations more : List Operation) :
    run libraries (operations ++ more) = more.foldl (step libraries) (run libraries operations) :=
  List.foldl_append

/-! ### Names -/

/-- The grammar a name stands for, with its number. -/
def find? (registry : Registry) (name : String) : Option (Nat × Grammar) := do
  let index ← registry.index? name
  let grammar ← registry.grammars[index]?
  return (index, grammar)

/-- Adds a grammar, if there is one. -/
def addGrammar? (registry : Registry) : Option Grammar → Registry
  | some grammar => registry.addGrammar grammar
  | none => registry

/-- Lets several names stand for what a known one stands for. -/
def addAliases (registry : Registry) (known : String) (others : List String) : Registry :=
  others.foldl (fun registry other => registry.addAlias known other) registry

theorem index?_of_not_contains {name : String} (free : registry.contains name = false) :
    registry.index? name = none :=
  Option.isNone_iff_eq_none.mp (Option.isSome_eq_false_iff.mp free)

theorem index?_bind (registry : Registry) (name : String) (index : Nat) (other : String) :
    (registry.bind name index).index? other =
      if other = name then some index else registry.index? other := by
  unfold index? bind
  rw [List.lookup_cons]
  by_cases same : other = name
  · rw [if_pos same, same, beq_self_eq_true]
  · rw [if_neg same, beq_eq_false_iff_ne.mpr same]

theorem index?_bindFree (registry : Registry) (index : Nat) (name other : String) :
    (registry.bindFree index name).index? other =
      (registry.index? other).or (if other = name then some index else none) := by
  unfold bindFree contains
  by_cases same : other = name
  · subst same
    cases bound : registry.index? other with
    | some found => simp [bound]
    | none => simp [index?_bind]
  · rw [if_neg same, Option.or_none]
    split
    · rfl
    · rw [index?_bind, if_neg same]

/-- Of several names those that are free are bound. -/
theorem index?_foldl_bindFree (registry : Registry) (index : Nat) (names : List String)
    (other : String) :
    (names.foldl (fun registry name => registry.bindFree index name) registry).index? other =
      (registry.index? other).or (if other ∈ names then some index else none) := by
  induction names generalizing registry with
  | nil => simp
  | cons name rest ih =>
    rw [List.foldl_cons, ih, index?_bindFree, Option.or_assoc]
    congr 1
    by_cases same : other = name
    · simp [same]
    · simp [same]

/-- A grammar that is added gets its own name, and its file types as far as they are free. -/
theorem index?_addGrammar (registry : Registry) (grammar : Grammar) (name : String) :
    (registry.addGrammar grammar).index? name =
      if name = grammar.name then some registry.grammars.size
      else (registry.index? name).or
        (if name ∈ grammar.fileTypes then some registry.grammars.size else none) := by
  unfold addGrammar
  rw [index?_foldl_bindFree, index?_bind]
  split <;> rfl

theorem index?_addAlias (registry : Registry) (known other name : String) :
    (registry.addAlias known other).index? name =
      if name = other then (registry.index? known).or (registry.index? name)
      else registry.index? name := by
  unfold addAlias
  cases bound : registry.index? known with
  | none => simp
  | some index => simp [index?_bind]

/-- Each of the other names stands for what the known one stands for, if that is anything. -/
theorem index?_addAliases (registry : Registry) (known : String) (others : List String)
    (name : String) :
    (registry.addAliases known others).index? name =
      if name ∈ others then (registry.index? known).or (registry.index? name)
      else registry.index? name := by
  unfold addAliases
  induction others generalizing registry with
  | nil => rfl
  | cons other rest ih =>
    have stays : (registry.addAlias known other).index? known = registry.index? known := by
      rw [index?_addAlias, Option.or_self, ite_self]
    rw [List.foldl_cons, ih, stays, index?_addAlias]
    by_cases same : name = other
    · simp [same, ← Option.or_assoc]
    · simp [same]

theorem grammars_addAliases (registry : Registry) (known : String) (others : List String) :
    (registry.addAliases known others).grammars = registry.grammars :=
  grammars_foldl (fun registry other => grammars_addAlias registry known other) others registry

/-! ### Names stand for grammars that are there -/

/-- The grammars of a registry have been compiled, and each name stands for one that is there. -/
structure Whole (libraries : Libraries) (registry : Registry) : Prop where
  compiled : registry.Compiled libraries.engine
  inside : ∀ name index, registry.index? name = some index → index < registry.grammars.size

theorem whole_empty : empty.Whole libraries := ⟨compiled_empty, fun _ _ bound => by cases bound⟩

namespace Whole

variable (whole : registry.Whole libraries)
include whole

theorem find?_of_index? {name : String} {index : Nat} (bound : registry.index? name = some index) :
    ∃ grammar, registry.grammars[index]? = some grammar ∧
      registry.find? name = some (index, grammar) := by
  have inside := whole.inside name index bound
  refine ⟨registry.grammars[index], Array.getElem?_eq_getElem inside, ?_⟩
  unfold find?
  rw [bound]
  simp [inside]

theorem contains_iff {name : String} :
    registry.contains name = true ↔ ∃ entry, registry.find? name = some entry := by
  constructor
  · intro contained
    obtain ⟨index, bound⟩ := Option.isSome_iff_exists.mp contained
    obtain ⟨grammar, -, found⟩ := whole.find?_of_index? bound
    exact ⟨_, found⟩
  · rintro ⟨entry, found⟩
    obtain ⟨index, bound, -⟩ := Option.bind_eq_some_iff.mp found
    exact Option.isSome_iff_exists.mpr ⟨index, bound⟩

theorem get_of_contains {name : String} (contained : registry.contains name = true) :
    ∃ grammar, registry.get name = .ok grammar := by
  obtain ⟨index, bound⟩ := Option.isSome_iff_exists.mp contained
  obtain ⟨grammar, here, -⟩ := whole.find?_of_index? bound
  refine ⟨grammar, ?_⟩
  unfold get get?
  rw [bound]
  simp [here]

theorem congr {other : Registry} (alike : other.Alike registry) : other.Whole libraries where
  compiled grammar member := whole.compiled grammar (alike.grammars ▸ member)
  inside name index bound := by
    rw [alike.grammars]
    exact whole.inside name index (alike.index? name ▸ bound)

theorem addAliases (known : String) (others : List String) :
    (registry.addAliases known others).Whole libraries := by
  refine ⟨?_, fun name index bound => ?_⟩
  · unfold Compiled
    rw [grammars_addAliases]
    exact whole.compiled
  · rw [grammars_addAliases]
    rw [index?_addAliases] at bound
    split at bound
    · rcases Option.or_eq_some_iff.mp bound with bound | ⟨-, bound⟩
      · exact whole.inside known index bound
      · exact whole.inside name index bound
    · exact whole.inside name index bound

theorem addGrammar {grammar : Grammar}
    (compiles : ∃ source : Grammar.Source, source.compile libraries.engine = .ok grammar) :
    (registry.addGrammar grammar).Whole libraries := by
  refine ⟨whole.compiled.addGrammar compiles, fun name index bound => ?_⟩
  rw [grammars_addGrammar, Array.size_push]
  rw [index?_addGrammar] at bound
  split at bound
  · cases bound
    exact Nat.lt_succ_self _
  · rcases Option.or_eq_some_iff.mp bound with bound | ⟨-, bound⟩
    · exact (whole.inside name index bound).trans (Nat.lt_succ_self _)
    · split at bound
      · cases bound
        exact Nat.lt_succ_self _
      · cases bound

end Whole

/-! ### The two steps -/

theorem toOption_addBytes (libraries : Libraries) (registry : Registry) (bytes : ByteArray) :
    (registry.addBytes libraries bytes).toOption =
      (grammarOf? libraries bytes).map registry.addGrammar := by
  unfold addBytes grammarOf?
  cases libraries.loadGrammar bytes <;> rfl

/-- Where the bytes hold no grammar that compiles, the registry is left as it was. -/
theorem getD_addBytes (registry : Registry) (bytes : ByteArray) :
    (registry.addBytes libraries bytes).toOption.getD registry =
      registry.addGrammar? (grammarOf? libraries bytes) := by
  rw [toOption_addBytes]
  cases grammarOf? libraries bytes <;> rfl

theorem exists_compile_of_grammarOf? {bytes : ByteArray} {grammar : Grammar}
    (found : grammarOf? libraries bytes = some grammar) :
    ∃ source : Grammar.Source, source.compile libraries.engine = .ok grammar := by
  unfold grammarOf? at found
  cases loaded : libraries.loadGrammar bytes with
  | error failure =>
    rw [loaded] at found
    cases found
  | ok other =>
    rw [loaded] at found
    cases found
    exact exists_compile_of_loadGrammar loaded

namespace Operation

variable {operation : Operation} {grammar : Grammar}

/-- What an operation adds has been compiled. -/
theorem exists_compile (adds : operation.adds? libraries = some grammar) :
    ∃ source : Grammar.Source, source.compile libraries.engine = .ok grammar := by
  cases operation with
  | addBytes bytes => exact exists_compile_of_grammarOf? adds
  | addFile content =>
    obtain ⟨bytes, -, found⟩ := Option.bind_eq_some_iff.mp adds
    exact exists_compile_of_grammarOf? found
  | addPlain aliases =>
    cases adds
    exact ⟨_, compile_plain _ _⟩
  | addAlias known other => cases adds
  | reload => cases adds

/-- An operation that adds a grammar gives other names to that grammar only, and if it gives any, the
grammar has no file types. -/
theorem others_of_adds? (adds : operation.adds? libraries = some grammar) :
    operation.others = [] ∨ operation.known = grammar.name ∧ grammar.fileTypes = [] := by
  cases operation with
  | addBytes bytes => exact .inl rfl
  | addFile content => exact .inl rfl
  | addPlain aliases =>
    cases adds
    exact .inr ⟨rfl, rfl⟩
  | addAlias known other => cases adds
  | reload => exact .inl rfl

/-- An operation that fails has no grammar to add: what should hold one cannot be read or compiled. -/
theorem adds?_of_error {failure : Failure} (failed : operation.apply libraries registry = .error failure) :
    operation.adds? libraries = none := by
  have none_of_bytes {bytes : ByteArray} (failed : registry.addBytes libraries bytes = .error failure) :
      grammarOf? libraries bytes = none := by
    have law := toOption_addBytes libraries registry bytes
    rw [failed] at law
    exact Option.map_eq_none_iff.mp law.symm
  cases operation with
  | addBytes bytes => exact none_of_bytes failed
  | addFile content =>
    cases content with
    | none => rfl
    | some bytes => exact none_of_bytes failed
  | addPlain aliases => cases failed
  | addAlias known other => rfl
  | reload => rfl

end Operation

namespace Whole

variable (whole : registry.Whole libraries)
include whole

theorem addGrammar? {operation : Operation} :
    (registry.addGrammar? (operation.adds? libraries)).Whole libraries := by
  cases adds : operation.adds? libraries with
  | none => exact whole
  | some grammar => exact whole.addGrammar (Operation.exists_compile adds)

variable (faithful : libraries.archive.Faithful)
include faithful

/-- Every operation adds its grammar, if it adds one, and then its aliases. -/
theorem step_alike (operation : Operation) :
    (registry.step libraries operation).Alike
      ((registry.addGrammar? (operation.adds? libraries)).addAliases operation.known
        operation.others) := by
  unfold step
  cases operation with
  | addBytes bytes => exact getD_addBytes registry bytes ▸ .refl _
  | addFile content =>
    cases content with
    | none => exact .refl _
    | some bytes => exact getD_addBytes registry bytes ▸ .refl _
  | addPlain aliases => exact .refl _
  | addAlias known other => exact .refl _
  | reload =>
    obtain ⟨other, reads, alike⟩ := whole.compiled.load_store faithful
    show ((Failure.ofError (load libraries (registry.store libraries.archive))).toOption.getD
      registry).Alike registry
    rw [reads]
    exact alike

theorem step (operation : Operation) : (registry.step libraries operation).Whole libraries :=
  (whole.addGrammar?.addAliases _ _).congr (whole.step_alike faithful operation)

end Whole

theorem whole_run (faithful : libraries.archive.Faithful) (operations : List Operation) :
    (run libraries operations).Whole libraries := by
  induction operations using List.reverseRecOn with
  | nil => exact whole_empty
  | append_singleton front operation ih =>
    rw [run_append]
    exact ih.step faithful operation

/-! ### What the two steps do to what is found -/

theorem find?_eq_none_of_index? {name : String} (free : registry.index? name = none) :
    registry.find? name = none := by
  unfold find?
  rw [free]
  rfl

theorem Alike.find?_eq {other : Registry} (alike : registry.Alike other) (name : String) :
    registry.find? name = other.find? name := by
  unfold find?
  rw [alike.index? name, alike.grammars]

theorem find?_congr {first second : Registry} {name other : String}
    (index : first.index? name = second.index? other) (grammars : first.grammars = second.grammars) :
    first.find? name = second.find? other := by
  unfold find?
  rw [index, grammars]

/-- A name that stands for the new grammar of a registry. -/
theorem find?_addGrammar_of_index? {grammar : Grammar} {name : String}
    (bound : (registry.addGrammar grammar).index? name = some registry.grammars.size) :
    (registry.addGrammar grammar).find? name = some (registry.grammars.size, grammar) := by
  unfold find?
  rw [bound, grammars_addGrammar]
  simp

namespace Whole

variable (whole : registry.Whole libraries)
include whole

/-- The name of a new grammar stands for it, and so do its file types that were free. -/
theorem find?_addGrammar (grammar : Grammar) (name : String) :
    (registry.addGrammar grammar).find? name =
      if name = grammar.name then some (registry.grammars.size, grammar)
      else (registry.find? name).or
        (if name ∈ grammar.fileTypes then some (registry.grammars.size, grammar) else none) := by
  have law := index?_addGrammar registry grammar name
  by_cases own : name = grammar.name
  · rw [if_pos own] at law ⊢
    exact find?_addGrammar_of_index? law
  · rw [if_neg own] at law ⊢
    cases bound : registry.index? name with
    | some index =>
      obtain ⟨old, here, found⟩ := whole.find?_of_index? bound
      rw [bound, Option.some_or] at law
      rw [found, Option.some_or]
      unfold find?
      rw [law, grammars_addGrammar]
      simp [Grammar.Tables.getElem?_push_of_some here]
    | none =>
      rw [bound, Option.none_or] at law
      rw [find?_eq_none_of_index? bound, Option.none_or]
      by_cases listed : name ∈ grammar.fileTypes
      · rw [if_pos listed] at law ⊢
        exact find?_addGrammar_of_index? law
      · rw [if_neg listed] at law ⊢
        exact find?_eq_none_of_index? law

/-- Each of the other names stands for what the known one stands for, if that is anything. -/
theorem find?_addAliases (known : String) (others : List String) (name : String) :
    (registry.addAliases known others).find? name =
      if name ∈ others then (registry.find? known).or (registry.find? name)
      else registry.find? name := by
  have law := index?_addAliases registry known others name
  have grammars := grammars_addAliases registry known others
  by_cases member : name ∈ others
  · rw [if_pos member] at law ⊢
    cases bound : registry.index? known with
    | some index =>
      obtain ⟨grammar, -, found⟩ := whole.find?_of_index? bound
      rw [bound, Option.some_or, ← bound] at law
      rw [found, Option.some_or, ← found]
      exact find?_congr law grammars
    | none =>
      rw [bound, Option.none_or] at law
      rw [find?_eq_none_of_index? bound, Option.none_or]
      exact find?_congr law grammars
  · rw [if_neg member] at law ⊢
    exact find?_congr law grammars

/-- What the known name stands for stays. -/
theorem find?_known (known : String) (others : List String) :
    (registry.addAliases known others).find? known = registry.find? known := by
  rw [whole.find?_addAliases, Option.or_self, ite_self]

end Whole

/-! ### What operations do to names -/

/-- What an operation does to the names of a registry. -/
structure Rebinds (libraries : Libraries) (before : Registry) (operation : Operation)
    (after : Registry) : Prop where
  /-- An operation that fails has no grammar to add, and it leaves the registry as it was. -/
  outcome : operation.apply libraries before = .ok after ∨
    (∃ failure, operation.apply libraries before = .error failure) ∧
      operation.adds? libraries = none ∧ after = before
  /-- A name that is known goes on to be known. -/
  contains : ∀ name, before.contains name = true → after.contains name = true
  /-- A name that is known has a grammar. -/
  resolves : ∀ name, after.contains name = true → ∃ grammar, after.get name = .ok grammar
  /-- A name whose grammar has become another one is the name of the new grammar, or a file type of it
  that was free, or an alias. -/
  changed : ∀ name, after.find? name ≠ before.find? name →
    (∃ grammar, operation.adds? libraries = some grammar ∧
      (name = grammar.name ∨ name ∈ grammar.fileTypes ∧ before.contains name = false) ∧
      after.find? name = some (before.grammars.size, grammar)) ∨
    (name ∈ operation.others ∧
      ∃ entry, after.find? operation.known = some entry ∧ after.find? name = some entry)
  /-- The name of a new grammar stands for it. -/
  named : ∀ grammar, operation.adds? libraries = some grammar →
    after.find? grammar.name = some (before.grammars.size, grammar)
  /-- A file type of a new grammar stands for it if it was free, and else for what it stood for. -/
  fileType : ∀ grammar, operation.adds? libraries = some grammar → ∀ name ∈ grammar.fileTypes,
    name ≠ grammar.name →
      after.find? name = (before.find? name).or (some (before.grammars.size, grammar))
  /-- An alias stands for what the known name stands for. -/
  aliased : ∀ name ∈ operation.others, after.contains operation.known = true →
    after.find? name = after.find? operation.known
  /-- An alias of a name that is not known changes nothing. -/
  unknown : ∀ known other, operation = .addAlias known other → before.contains known = false →
    after = before
  /-- A registry that is stored can be read again, and all names mean what they meant. -/
  reloaded : ∃ other, load libraries (before.store libraries.archive) = .ok other ∧
    other.grammars = before.grammars ∧
    (∀ name, other.contains name = before.contains name ∧ other.get name = before.get name ∧
      other.getOrPlain name = before.getOrPlain name) ∧
    ∀ first second, other.same first second = before.same first second

namespace Whole

variable (whole : registry.Whole libraries)
include whole

/-- Only the names of a new grammar are bound anew when it is added. -/
theorem find?_addGrammar?_ne {grammar? : Option Grammar} {name : String}
    (changed : (registry.addGrammar? grammar?).find? name ≠ registry.find? name) :
    ∃ grammar, grammar? = some grammar ∧
      (name = grammar.name ∨ name ∈ grammar.fileTypes ∧ registry.contains name = false) ∧
      (registry.addGrammar? grammar?).find? name = some (registry.grammars.size, grammar) := by
  cases grammar? with
  | none => exact absurd rfl changed
  | some grammar =>
    refine ⟨grammar, rfl, ?_⟩
    have law := whole.find?_addGrammar grammar name
    by_cases own : name = grammar.name
    · rw [if_pos own] at law
      exact ⟨.inl own, law⟩
    · rw [if_neg own] at law
      have free : registry.find? name = none := by
        by_contra bound
        obtain ⟨entry, found⟩ := Option.ne_none_iff_exists'.mp bound
        rw [found, Option.some_or, ← found] at law
        exact changed law
      rw [free, Option.none_or] at law
      have unbound : registry.contains name = false := by
        rw [← Bool.not_eq_true, whole.contains_iff, free]
        rintro ⟨entry, found⟩
        cases found
      by_cases listed : name ∈ grammar.fileTypes
      · rw [if_pos listed] at law
        exact ⟨.inr ⟨listed, unbound⟩, law⟩
      · rw [if_neg listed] at law
        exact absurd (law.trans free.symm) changed

variable (faithful : libraries.archive.Faithful)
include faithful

/-- What an operation makes a name stand for. -/
theorem find?_step (operation : Operation) (name : String) :
    (registry.step libraries operation).find? name =
      if name ∈ operation.others then
        ((registry.addGrammar? (operation.adds? libraries)).find? operation.known).or
          ((registry.addGrammar? (operation.adds? libraries)).find? name)
      else (registry.addGrammar? (operation.adds? libraries)).find? name := by
  rw [(whole.step_alike faithful operation).find?_eq, whole.addGrammar?.find?_addAliases]

theorem find?_step_known (operation : Operation) :
    (registry.step libraries operation).find? operation.known =
      (registry.addGrammar? (operation.adds? libraries)).find? operation.known := by
  rw [(whole.step_alike faithful operation).find?_eq, whole.addGrammar?.find?_known]

/-- What is found goes on to be found. -/
theorem contains_step {name : String} (operation : Operation)
    (contained : registry.contains name = true) :
    (registry.step libraries operation).contains name = true := by
  obtain ⟨entry, found⟩ := whole.contains_iff.mp contained
  have stays : ∃ other, (registry.addGrammar? (operation.adds? libraries)).find? name = some other := by
    by_cases changed : (registry.addGrammar? (operation.adds? libraries)).find? name = registry.find? name
    · exact ⟨entry, changed.trans found⟩
    · obtain ⟨grammar, -, -, new⟩ := whole.find?_addGrammar?_ne changed
      exact ⟨_, new⟩
  obtain ⟨other, there⟩ := stays
  rw [(whole.step faithful operation).contains_iff, whole.find?_step faithful, there]
  split
  · exact Option.isSome_iff_exists.mp (by simp)
  · exact ⟨other, rfl⟩

/-- A name that comes to stand for something else does so by the new grammar or by an alias. -/
theorem find?_step_ne {operation : Operation} {name : String}
    (changed : (registry.step libraries operation).find? name ≠ registry.find? name) :
    (∃ grammar, operation.adds? libraries = some grammar ∧
      (name = grammar.name ∨ name ∈ grammar.fileTypes ∧ registry.contains name = false) ∧
      (registry.step libraries operation).find? name = some (registry.grammars.size, grammar)) ∨
    (name ∈ operation.others ∧ ∃ entry,
      (registry.step libraries operation).find? operation.known = some entry ∧
      (registry.step libraries operation).find? name = some entry) := by
  have law := whole.find?_step faithful operation name
  have fromGrammar (same : (registry.step libraries operation).find? name =
      (registry.addGrammar? (operation.adds? libraries)).find? name) :
      ∃ grammar, operation.adds? libraries = some grammar ∧
        (name = grammar.name ∨ name ∈ grammar.fileTypes ∧ registry.contains name = false) ∧
        (registry.step libraries operation).find? name = some (registry.grammars.size, grammar) := by
    rw [same] at changed ⊢
    exact whole.find?_addGrammar?_ne changed
  by_cases member : name ∈ operation.others
  · rw [if_pos member] at law
    cases there : (registry.addGrammar? (operation.adds? libraries)).find? operation.known with
    | none =>
      rw [there, Option.none_or] at law
      exact .inl (fromGrammar law)
    | some entry =>
      rw [there, Option.some_or] at law
      exact .inr ⟨member, entry, (whole.find?_step_known faithful operation).trans there, law⟩
  · rw [if_neg member] at law
    exact .inl (fromGrammar law)

/-- The names of a new grammar are not aliases of anything else. -/
theorem find?_step_of_adds? {operation : Operation} {grammar : Grammar} {name : String}
    (adds : operation.adds? libraries = some grammar)
    (own : name = grammar.name ∨ name ∈ grammar.fileTypes) :
    (registry.step libraries operation).find? name = (registry.addGrammar grammar).find? name := by
  have law := whole.find?_step faithful operation name
  rw [adds] at law
  rcases Operation.others_of_adds? adds with none | ⟨known, noTypes⟩
  · rwa [none, if_neg List.not_mem_nil] at law
  · rw [noTypes] at own
    rcases own with rfl | listed
    · rwa [known, Option.or_self, ite_self] at law
    · exact absurd listed List.not_mem_nil

/-- An alias stands for what the known name stands for. -/
theorem find?_step_of_mem_others {operation : Operation} {name : String}
    (member : name ∈ operation.others)
    (contained : (registry.step libraries operation).contains operation.known = true) :
    (registry.step libraries operation).find? name =
      (registry.step libraries operation).find? operation.known := by
  obtain ⟨entry, found⟩ := (whole.step faithful operation).contains_iff.mp contained
  have law := whole.find?_step faithful operation name
  rw [if_pos member, ← whole.find?_step_known faithful, found, Option.some_or] at law
  exact law.trans found.symm

/-- What an operation does to the names of a registry, if all of them stand for grammars. -/
theorem rebinds (operation : Operation) :
    registry.Rebinds libraries operation (registry.step libraries operation) where
  outcome := by
    unfold Registry.step
    cases applied : operation.apply libraries registry with
    | ok after => exact .inl rfl
    | error failure => exact .inr ⟨⟨failure, rfl⟩, Operation.adds?_of_error applied, rfl⟩
  contains _ := whole.contains_step faithful operation
  resolves _ := (whole.step faithful operation).get_of_contains
  changed _ := whole.find?_step_ne faithful
  named grammar adds := by
    rw [whole.find?_step_of_adds? faithful adds (.inl rfl), whole.find?_addGrammar, if_pos rfl]
  fileType grammar adds name listed other := by
    rw [whole.find?_step_of_adds? faithful adds (.inr listed), whole.find?_addGrammar, if_neg other,
      if_pos listed]
  aliased _ := whole.find?_step_of_mem_others faithful
  unknown known other same free := by
    subst same
    show registry.addAlias known other = registry
    unfold addAlias
    rw [index?_of_not_contains free]
  reloaded := by
    obtain ⟨other, reads, alike⟩ := whole.compiled.load_store faithful
    exact ⟨other, reads, alike.grammars, fun name =>
      ⟨alike.contains_eq name, alike.get_eq name, alike.getOrPlain_eq name⟩, alike.same_eq⟩

end Whole

/-- **Names go on standing for grammars.** Whatever operations have made a registry, the next one keeps
every name that is known, and it binds a name anew only by a grammar of that name, by a file type
that was free or by an alias; what fails, and an alias of a name that is not known, changes nothing, and
a registry that is stored is read back like it was, by an archive that gives back what was written. So a
name that was known once has a grammar whatever operations follow. -/
theorem run_rebinds (libraries : Libraries) (faithful : libraries.archive.Faithful)
    (operations : List Operation) (operation : Operation) :
    (run libraries operations).Rebinds libraries operation
        (run libraries (operations ++ [operation])) ∧
      ∀ more name, (run libraries operations).contains name = true →
        ∃ grammar, (run libraries (operations ++ more)).get name = .ok grammar := by
  have whole := whole_run faithful operations
  refine ⟨?_, fun more name contained => ?_⟩
  · rw [run_append]
    exact whole.rebinds faithful operation
  · have stays : (run libraries (operations ++ more)).contains name = true := by
      induction more using List.reverseRecOn with
      | nil => rwa [List.append_nil]
      | append_singleton front last ih =>
        rw [← List.append_assoc, run_append]
        exact (whole_run faithful _).contains_step faithful last ih
    exact (whole_run faithful _).get_of_contains stays

/-- An alias of the plain grammar still has a grammar after the registry has been stored and read again, a
file could not be read and the alias was to stand for a name that is not known. -/
theorem run_rebinds_plain :
    (run .builtin [.addPlain ["txt"]]).contains "txt" = true ∧
      ∃ grammar, (run .builtin ([.addPlain ["txt"]] ++
        [.reload, .addFile none, .addAlias "gaps" "txt"])).get "txt" = .ok grammar := by
  have contained : (run .builtin [.addPlain ["txt"]]).contains "txt" = true := by decide
  exact ⟨contained, (run_rebinds .builtin Archive.faithful_compact [.addPlain ["txt"]] .reload).2 _
    "txt" contained⟩

end Highlight.Registry
