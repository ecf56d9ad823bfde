/-
**The flat list of a pattern is what its rules stand for.**

What a rule lists becomes a list of patterns: the patterns of the rules in it, those that includes name,
and what the containers among them hold.

* `Source.outline`: which patterns the rules of a source list, told from the source alone;
* `Compiler.flattens_of_childrenOf`: the bound on how deeply containers are nested is never reached, so
  that a flat list is what a walk without any bound meets;
* `Source.Dangling`: a name in an include that there is no rule for;
* `Grammar.compile_flattens`: **in a compiled grammar every pattern has the flat list of what its rule
  lists**; a source with a name that dangles does not compile.
-/

import Highlight.Proofs.Grammar.Numbering
import Highlight.Proofs.Grammar.Outline
import Highlight.Regex.Backtracking

namespace Highlight.Grammar

variable {engine : Regex.Engine}

/-! ### What the rules of a source list -/

namespace Source

/-- The number of the rule that a name in an include means. -/
def resolve? (source : Source) (name : String) : Option PatternId :=
  if name = "$self" ∨ name = "$base" then some rootPattern
  else (source.entries.find? fun entry => name == "#" ++ entry.1).map (·.2)

/-- The number of the rule that is listed. -/
def target? (source : Source) : ChildRef → Option PatternId
  | .pattern id => some id
  | .include name => source.resolve? name

/-- Which patterns the rules of a source list. -/
def outline (source : Source) : Outline where
  children id := (source.listed[id]?.map fun rule =>
    (Rule.refs (id + 1) rule.rules).filterMap source.target?).getD []
  isContainer id := (source.listed[id]?.map (·.head.isContainer)).getD true

/-- A name in an include of a rule that gets a number, which is no name of the grammar itself nor of an
entry of its repository. -/
structure Dangling (source : Source) (name : String) : Prop where
  written : ∃ rule ∈ source.listed, ∃ inner ∈ rule.rules, inner.head.reference = some name
  unknown : name ≠ "$self" ∧ name ≠ "$base" ∧ ∀ entry ∈ source.repository, name ≠ "#" ++ entry.1

/-- Exactly the names of the grammar itself and of the entries of its repository mean a rule. -/
theorem resolve?_eq_none_iff {source : Source} {name : String} :
    source.resolve? name = none ↔
      name ≠ "$self" ∧ name ≠ "$base" ∧ ∀ entry ∈ source.repository, name ≠ "#" ++ entry.1 := by
  have names : (∃ known ∈ source.entries, name = "#" ++ known.1) ↔
      ∃ entry ∈ source.repository, name = "#" ++ entry.1 := by
    have same : source.entries.map Prod.fst = source.repository.map Prod.fst := Rule.map_fst_entries
    constructor
    · rintro ⟨known, member, named⟩
      obtain ⟨entry, isEntry, alike⟩ := List.mem_map.mp (same ▸ List.mem_map_of_mem member)
      exact ⟨entry, isEntry, alike.symm ▸ named⟩
    · rintro ⟨entry, member, named⟩
      obtain ⟨known, isKnown, alike⟩ := List.mem_map.mp (same.symm ▸ List.mem_map_of_mem member)
      exact ⟨known, isKnown, alike.symm ▸ named⟩
  unfold resolve?
  by_cases own : name = "$self" ∨ name = "$base"
  · rw [if_pos own]
    constructor
    · intro missing
      cases missing
    · rintro ⟨notSelf, notBase, -⟩
      exact absurd own (not_or.mpr ⟨notSelf, notBase⟩)
  · obtain ⟨notSelf, notBase⟩ := not_or.mp own
    rw [if_neg own, Option.map_eq_none_iff, List.find?_eq_none]
    constructor
    · refine fun missing => ⟨notSelf, notBase, fun entry member named => ?_⟩
      obtain ⟨known, isKnown, alike⟩ := names.mpr ⟨entry, member, named⟩
      exact missing known isKnown (beq_iff_eq.mpr alike)
    · rintro ⟨-, -, missing⟩ known isKnown alike
      obtain ⟨entry, member, named⟩ := names.mp ⟨known, isKnown, beq_iff_eq.mp alike⟩
      exact missing entry member named

/-- Rules list nothing but rules that have numbers. -/
theorem lt_of_mem_children {source : Source} {id child : PatternId}
    (member : child ∈ source.outline.children id) : child < source.listed.length := by
  unfold outline at member
  simp only at member
  cases here : source.listed[id]? with
  | none =>
    rw [here] at member
    cases member
  | some rule =>
    rw [here] at member
    obtain ⟨ref, isRef, means⟩ := List.mem_filterMap.mp member
    rcases ref with number | name
    · -- The rule itself stands before the rules in it.
      cases means
      obtain ⟨front, back, split, place⟩ := source.unbroken_listed id rule here
      rw [Rule.listed_eq, List.cons_append, List.append_cons] at split
      have behind : (front ++ [rule]).length = id + 1 := by
        rw [List.length_append, place]
        rfl
      rw [← behind] at isRef
      obtain ⟨inner, -, -, there⟩ := Rule.listed_of_refs back isRef
      rw [← split] at there
      exact (List.getElem?_eq_some_iff.mp there).1
    · have named : source.resolve? name = some child := means
      unfold resolve? at named
      split at named
      · cases named
        unfold listed
        rw [List.length_append]
        exact Nat.lt_add_right _ (Rule.listed_pos _)
      · obtain ⟨⟨entry, number⟩, found, same⟩ := Option.map_eq_some_iff.mp named
        cases same
        obtain ⟨rule, -, there⟩ := Rule.listed_of_entries (List.mem_of_find?_eq_some found)
        exact (List.getElem?_eq_some_iff.mp there).1

end Source

namespace Compiler

variable {compiler : Compiler} {id : PatternId}

/-- The pattern that a child of a rule means, if there is one. -/
def target? (compiler : Compiler) (ref : ChildRef) : Option PatternId :=
  (compiler.target ref).toOption

theorem target?_eq_some_iff {ref : ChildRef} {id : PatternId} :
    compiler.target? ref = some id ↔ compiler.target ref = .ok id := by
  unfold target?
  cases compiler.target ref <;> simp [Except.toOption]

/-- Which patterns the rules list that have been compiled. -/
def outline (compiler : Compiler) : Outline where
  children id := (compiler.written.getD id []).filterMap compiler.target?
  isContainer id := (compiler.patterns.getD id default).isContainer

theorem eq_hash_append_iff {name entry : String} :
    name = "#" ++ entry ↔ name.toList = '#' :: entry.toList := by
  rw [← String.toList_inj, String.toList_append]
  rfl

theorem target?_of_laid {source : Source} (laid : source.Laid compiler) (ref : ChildRef) :
    compiler.target? ref = source.target? ref := by
  rcases ref with number | name
  · rfl
  · show (compiler.resolve name).toOption = source.resolve? name
    unfold resolve Source.resolve?
    rw [laid.repository]
    by_cases own : name = "$self" ∨ name = "$base"
    · rw [if_pos own, if_pos own]
      rfl
    · rw [if_neg own, if_neg own]
      split
      · rename_i entry chars
        have alike : (fun known : String × PatternId => name == "#" ++ known.1) =
            fun known => known.1 == String.ofList entry := by
          funext known
          rw [Bool.eq_iff_iff, beq_iff_eq, beq_iff_eq, eq_hash_append_iff, chars, List.cons.injEq,
            ← String.toList_inj, String.toList_ofList]
          exact ⟨fun same => same.2.symm, fun same => ⟨rfl, same.symm⟩⟩
        rw [alike]
        cases source.entries.find? _ <;> rfl
      · rename_i unmarked
        have missing : (source.entries.find? fun known => name == "#" ++ known.1) = none :=
          List.find?_eq_none.mpr fun known _ same =>
            unmarked _ (eq_hash_append_iff.mp (beq_iff_eq.mp same))
        rw [missing]
        rfl

/-- What has been compiled of a source lists what the source does. -/
theorem outline_of_laid {source : Source} (laid : source.Laid compiler) :
    compiler.outline = source.outline := by
  unfold outline Source.outline
  congr 1
  · funext id
    rw [Array.getD_eq_getD_getElem?, laid.written]
    cases source.listed[id]? with
    | none => rfl
    | some rule => exact List.filterMap_congr fun ref _ => target?_of_laid laid ref
  · funext id
    rw [← laid.container, Array.getD_eq_getD_getElem?]
    cases compiler.patterns[id]? <;> rfl

/-! ### Walks -/

/-- What has been found is what a walk has met. -/
structure Shows (compiler : Compiler) (met : List PatternId) (found : Found) : Prop where
  children : found.children.toList = compiler.outline.leaves met
  size : found.visited.size = compiler.patterns.size
  visited : ∀ id < compiler.patterns.size, found.visited.getD id false = true ↔ id ∈ met
  once : met.Nodup
  inside : ∀ id ∈ met, id < compiler.patterns.size

variable {met : List PatternId} {found after : Found}

theorem shows_nil (compiler : Compiler) :
    compiler.Shows [] ⟨#[], Array.replicate compiler.patterns.size false⟩ := by
  refine ⟨rfl, Array.size_replicate, fun id inside => ?_, List.nodup_nil, fun id member => nomatch member⟩
  rw [Array.getD_eq_getD_getElem?, Array.getElem?_replicate, if_pos inside]
  simp

theorem Shows.length_le (shows : compiler.Shows met found) : met.length ≤ compiler.patterns.size := by
  have fewer := shows.once.subperm fun id member => List.mem_range.mpr (shows.inside id member)
  rw [← List.length_range (n := compiler.patterns.size)]
  exact fewer.length_le

/-- A pattern that is visited is met. -/
theorem Shows.visit (shows : compiler.Shows met found) (new : id ∉ met)
    (inside : id < compiler.patterns.size) {children : Array PatternId}
    (leaves : children.toList = compiler.outline.leaves (met ++ [id])) :
    compiler.Shows (met ++ [id]) ⟨children, found.visited.setIfInBounds id true⟩ := by
  refine ⟨leaves, ?_, fun other known => ?_, List.concat_eq_append ▸ shows.once.concat new, ?_⟩
  · rw [Array.size_setIfInBounds]
    exact shows.size
  · rw [List.mem_append, List.mem_singleton, ← shows.visited other known,
      Array.getD_eq_getD_getElem?, Array.getD_eq_getD_getElem?]
    by_cases same : id = other
    · rw [same, Array.getElem?_setIfInBounds_self_of_lt (shows.size ▸ known)]
      simp
    · rw [Array.getElem?_setIfInBounds_ne same]
      simp [Ne.symm same]
  · intro other member
    rcases List.mem_append.mp member with known | same
    · exact shows.inside other known
    · rw [List.mem_singleton.mp same]
      exact inside

/-- A child means a pattern, which has been visited, or is added, or is entered. -/
theorem addChild_eq_ok {inner : PatternId → Found → Except Error Found} {ref : ChildRef}
    (went : compiler.addChild inner found ref = .ok after) :
    ∃ id, compiler.target ref = .ok id ∧
      (found.visited.getD id false = true ∧ after = found ∨
        found.visited.getD id false = false ∧ compiler.outline.isContainer id = false ∧
          after = ⟨found.children.push id, found.visited.setIfInBounds id true⟩ ∨
        found.visited.getD id false = false ∧ compiler.outline.isContainer id = true ∧
          inner id ⟨found.children, found.visited.setIfInBounds id true⟩ = .ok after) := by
  unfold addChild at went
  obtain ⟨id, target, went⟩ := Fault.bind_eq_ok.mp went
  refine ⟨id, target, ?_⟩
  cases visited : found.visited.getD id false with
  | true =>
    rw [visited] at went
    cases went
    exact Or.inl ⟨rfl, rfl⟩
  | false =>
    rw [visited] at went
    have kind : (compiler.patterns.getD id default).isContainer = compiler.outline.isContainer id :=
      rfl
    simp only [kind, Bool.false_eq_true, if_false] at went
    cases container : compiler.outline.isContainer id with
    | false =>
      rw [container] at went
      cases went
      exact Or.inr (Or.inl ⟨rfl, rfl, rfl⟩)
    | true =>
      rw [container] at went
      exact Or.inr (Or.inr ⟨rfl, rfl, went⟩)

/-- What the written children of a pattern add is what a walk through them meets. -/
theorem walks_of_foldlM {fuel : Nat} {refs : List ChildRef}
    (enters : ∀ {id met found after}, compiler.Shows met found →
      compiler.patterns.size < fuel + met.length → compiler.expand fuel id found = .ok after →
        ∃ final, compiler.outline.Walks (compiler.outline.children id) met final ∧
          compiler.Shows final after)
    (inside : ∀ child ∈ refs.filterMap compiler.target?, child < compiler.patterns.size)
    (shows : compiler.Shows met found) (enough : compiler.patterns.size < fuel + 1 + met.length)
    (went : refs.foldlM (compiler.addChild (compiler.expand fuel)) found = .ok after) :
    ∃ final, compiler.outline.Walks (refs.filterMap compiler.target?) met final ∧
      compiler.Shows final after := by
  induction refs generalizing met found with
  | nil =>
    cases went
    exact ⟨met, .nil, shows⟩
  | cons ref rest ih =>
    rw [List.foldlM_cons] at went
    obtain ⟨middle, first, behind⟩ := Fault.bind_eq_ok.mp went
    obtain ⟨id, target, outcome⟩ := addChild_eq_ok first
    have means : compiler.target? ref = some id := target?_eq_some_iff.mpr target
    rw [List.filterMap_cons_some means] at inside ⊢
    have here : id < compiler.patterns.size := inside id List.mem_cons_self
    have further := fun child member => inside child (List.mem_cons_of_mem id member)
    have new : found.visited.getD id false = false → id ∉ met := fun unvisited member => by
      rw [(shows.visited id here).mpr member] at unvisited
      cases unvisited
    rcases outcome with ⟨visited, rfl⟩ | ⟨unvisited, plain, rfl⟩ | ⟨unvisited, container, entered⟩
    · obtain ⟨final, walks, shown⟩ := ih further shows enough behind
      exact ⟨final, .again ((shows.visited id here).mp visited) walks, shown⟩
    · have visit : compiler.Shows (met ++ [id]) ⟨found.children.push id, _⟩ :=
        shows.visit (new unvisited) here (by
          unfold Outline.leaves
          rw [Array.toList_push, shows.children, List.filter_append,
            List.filter_cons_of_pos (by rw [plain]; rfl)]
          rfl)
      obtain ⟨final, walks, shown⟩ := ih further visit (by rw [List.length_append]; omega) behind
      exact ⟨final, .pattern (new unvisited) plain walks, shown⟩
    · have visit : compiler.Shows (met ++ [id]) ⟨found.children, _⟩ :=
        shows.visit (new unvisited) here (by
          unfold Outline.leaves
          rw [shows.children, List.filter_append, List.filter_cons_of_neg (by rw [container]; decide),
            List.filter_nil, List.append_nil]
          rfl)
      have deeper : compiler.patterns.size < fuel + (met ++ [id]).length := by
        rw [List.length_append, List.length_singleton]
        omega
      obtain ⟨reached, inner, shownInner⟩ := enters visit deeper entered
      have longer := inner.length_le
      rw [List.length_append] at longer
      obtain ⟨final, walks, shown⟩ := ih further shownInner (by omega) behind
      exact ⟨final, .container (new unvisited) container inner walks, shown⟩

section Bounded

variable (bounded : ∀ id, ∀ child ∈ compiler.outline.children id, child < compiler.patterns.size)
include bounded

/-- **The bound is never reached**: as long as it is as large as the number of patterns that have not
been visited, what is found in a pattern is what a walk meets. -/
theorem walks_of_expand {fuel : Nat} (shows : compiler.Shows met found)
    (enough : compiler.patterns.size < fuel + met.length)
    (went : compiler.expand fuel id found = .ok after) :
    ∃ final, compiler.outline.Walks (compiler.outline.children id) met final ∧
      compiler.Shows final after := by
  induction fuel generalizing id met found after with
  | zero =>
    have := shows.length_le
    omega
  | succ fuel ih => exact walks_of_foldlM ih (bounded id) shows enough went

/-- **The flat list of a pattern is what a walk without any bound meets.** -/
theorem flattens_of_childrenOf {children : List PatternId}
    (went : compiler.childrenOf id = .ok children) : compiler.outline.Flattens id children := by
  obtain ⟨found, expands, done⟩ := Fault.bind_eq_ok.mp went
  cases done
  obtain ⟨met, walks, shows⟩ := walks_of_expand bounded (shows_nil compiler) (by simp) expands
  rw [shows.children]
  exact walks.flattens

end Bounded

/-! ### Names that dangle -/

/-- Only a name in an include means no pattern. -/
theorem exists_of_target_error {ref : ChildRef} {cause : Error}
    (failed : compiler.target ref = .error cause) :
    ∃ name, ref = .include name ∧ cause = .unresolvedInclude name := by
  rcases ref with number | name
  · cases failed
  · have failed : compiler.resolve name = .error cause := failed
    refine ⟨name, rfl, ?_⟩
    unfold resolve at failed
    split at failed
    · cases failed
    · split at failed
      · split at failed
        · cases failed
        · cases failed
          rfl
      · cases failed
        rfl

/-- A child goes wrong if it means no pattern, or in the container it means. -/
theorem addChild_eq_error {inner : PatternId → Found → Except Error Found} {ref : ChildRef}
    {cause : Error} (failed : compiler.addChild inner found ref = .error cause) :
    compiler.target ref = .error cause ∨ ∃ id entered, inner id entered = .error cause := by
  unfold addChild at failed
  rcases Fault.bind_eq_error.mp failed with missing | ⟨id, -, failed⟩
  · exact Or.inl missing
  · split at failed
    · cases failed
    · simp only at failed
      split at failed
      · exact Or.inr ⟨_, _, failed⟩
      · cases failed

theorem foldlM_addChild_eq_error {inner : PatternId → Found → Except Error Found}
    {refs : List ChildRef} {cause : Error}
    (failed : refs.foldlM (compiler.addChild inner) found = .error cause) :
    (∃ ref ∈ refs, compiler.target ref = .error cause) ∨
      ∃ id entered, inner id entered = .error cause := by
  induction refs generalizing found with
  | nil => cases failed
  | cons ref rest ih =>
    rw [List.foldlM_cons, Fault.bind_eq_error] at failed
    rcases failed with here | ⟨middle, -, failed⟩
    · exact (addChild_eq_error here).imp_left fun missing => ⟨ref, List.mem_cons_self, missing⟩
    · exact (ih failed).imp_left fun ⟨other, member, missing⟩ =>
        ⟨other, List.mem_cons_of_mem _ member, missing⟩

/-- What is found goes wrong only for a child that means no pattern. -/
theorem exists_of_expand_error {fuel : Nat} {cause : Error}
    (failed : compiler.expand fuel id found = .error cause) :
    ∃ index, ∃ ref ∈ compiler.written.getD index [], compiler.target ref = .error cause := by
  induction fuel generalizing id found with
  | zero => cases failed
  | succ fuel ih =>
    rcases foldlM_addChild_eq_error failed with ⟨ref, member, missing⟩ | ⟨number, entered, failed⟩
    · exact ⟨id, ref, member, missing⟩
    · exact ih failed

theorem foldlM_addChild_targets {inner : PatternId → Found → Except Error Found}
    {refs : List ChildRef} (went : refs.foldlM (compiler.addChild inner) found = .ok after) :
    ∀ ref ∈ refs, ∃ other, compiler.target ref = .ok other := by
  induction refs generalizing found with
  | nil => exact fun _ member => nomatch member
  | cons first rest ih =>
    intro ref member
    rw [List.foldlM_cons] at went
    obtain ⟨middle, here, went⟩ := Fault.bind_eq_ok.mp went
    rcases List.mem_cons.mp member with rfl | member
    · obtain ⟨other, target, -⟩ := addChild_eq_ok here
      exact ⟨other, target⟩
    · exact ih went ref member

/-- Where a flat list is made every child means a pattern. -/
theorem exists_target_of_childrenOf {children : List PatternId}
    (went : compiler.childrenOf id = .ok children) :
    ∀ ref ∈ compiler.written.getD id [], ∃ other, compiler.target ref = .ok other := by
  obtain ⟨found, expands, -⟩ := Fault.bind_eq_ok.mp went
  exact foldlM_addChild_targets expands

theorem target?_eq_none_iff {ref : ChildRef} :
    compiler.target? ref = none ↔ ¬ ∃ other, compiler.target ref = .ok other := by
  simp only [Option.eq_none_iff_forall_ne_some, Ne, target?_eq_some_iff, not_exists]

theorem mem_written_iff {source : Source} (laid : source.Laid compiler) {ref : ChildRef} :
    ref ∈ compiler.written.getD id [] ↔
      ∃ rule, source.listed[id]? = some rule ∧ ref ∈ Rule.refs (id + 1) rule.rules := by
  rw [Array.getD_eq_getD_getElem?, laid.written]
  cases source.listed[id]? <;> simp

/-- The names that dangle are those that the rules that have been compiled list and that mean no
pattern. -/
theorem dangling_iff {source : Source} (laid : source.Laid compiler) {name : String} :
    source.Dangling name ↔ ∃ id, ChildRef.include name ∈ compiler.written.getD id [] ∧
      compiler.target? (.include name) = none := by
  have means : compiler.target? (.include name) = source.resolve? name := target?_of_laid laid _
  constructor
  · rintro ⟨⟨rule, isListed, inner, isInner, reference⟩, unknown⟩
    obtain ⟨id, here⟩ := List.mem_iff_getElem?.mp isListed
    refine ⟨id, (mem_written_iff laid).mpr ⟨rule, here, ?_⟩, ?_⟩
    · exact Rule.mem_refs_include.mpr ⟨inner, isInner, reference⟩
    · exact means.trans (Source.resolve?_eq_none_iff.mpr unknown)
  · rintro ⟨id, member, missing⟩
    obtain ⟨rule, here, isRef⟩ := (mem_written_iff laid).mp member
    obtain ⟨inner, isInner, reference⟩ := Rule.mem_refs_include.mp isRef
    exact ⟨⟨rule, List.mem_of_getElem? here, inner, isInner, reference⟩,
      Source.resolve?_eq_none_iff.mp (means.symm.trans missing)⟩

/-- There are no flat lists only where a name dangles. -/
theorem dangling_of_resolved_error {source : Source} (laid : source.Laid compiler) {cause : Error}
    (failed : compiler.resolved = .error cause) :
    ∃ missing, source.Dangling missing ∧ cause = .unresolvedInclude missing := by
  obtain ⟨number, failed⟩ := resolved_eq_error failed
  rcases Fault.bind_eq_error.mp failed with failed | ⟨found, -, done⟩
  · obtain ⟨index, ref, isRef, failed⟩ := exists_of_expand_error failed
    obtain ⟨other, rfl, rfl⟩ := exists_of_target_error failed
    refine ⟨other, (dangling_iff laid).mpr ⟨index, isRef, target?_eq_none_iff.mpr ?_⟩, rfl⟩
    rw [failed]
    rintro ⟨_, ⟨⟩⟩
  · cases done

/-- **Where a name dangles there are no flat lists.** -/
theorem resolved_of_dangling {source : Source} (laid : source.Laid compiler)
    (few : compiler.patterns.size ≤ idRange) {name : String} (dangling : source.Dangling name) :
    ∃ missing, source.Dangling missing ∧
      compiler.resolved = .error (.unresolvedInclude missing) := by
  obtain ⟨id, member, missing⟩ := (dangling_iff laid).mp dangling
  cases outcome : compiler.resolved with
  | error cause =>
    obtain ⟨missing, isMissing, rfl⟩ := dangling_of_resolved_error laid outcome
    exact ⟨missing, isMissing, rfl⟩
  | ok after =>
    obtain ⟨-, -, each⟩ := resolved_eq_ok outcome
    have inside : id < compiler.patterns.size := by
      obtain ⟨rule, here, -⟩ := (mem_written_iff laid).mp member
      exact laid.size ▸ (List.getElem?_eq_some_iff.mp here).1
    obtain ⟨children, flattened, -⟩ := each id _ (Array.getElem?_eq_getElem inside)
    rw [Nat.mod_eq_of_lt (inside.trans_le few)] at flattened
    exact absurd (exists_target_of_childrenOf flattened _ member) (target?_eq_none_iff.mp missing)

end Compiler

/-! ### Grammars -/

/-- What compiling a source makes of what its rules list: there is a pattern of each rule, and every
pattern has the flat list of what its rule lists. -/
structure Source.Flat (source : Source) (grammar : Grammar) : Prop where
  size : grammar.patterns.size = source.listed.length
  container : ∀ (id : PatternId) (pattern : Pattern), grammar.patterns[id]? = some pattern →
    pattern.isContainer = source.outline.isContainer id
  known : ∀ (id : PatternId) (pattern : Pattern), grammar.patterns[id]? = some pattern →
    ∀ child ∈ pattern.children, child < grammar.patterns.size
  flattens : ∀ (id : PatternId) (pattern : Pattern), grammar.patterns[id]? = some pattern →
    source.outline.Flattens id pattern.children
  resolved : ∀ name, ¬ source.Dangling name

/-- When the children of what has been compiled are flattened every pattern gets the flat list of what its
rule lists. -/
theorem flat_of_resolved {source : Source} {grammar : Grammar} {written resolved : Compiler}
    (went : source.written engine = .ok written) (flattened : written.resolved = .ok resolved)
    (patterns : grammar.patterns = resolved.patterns) (few : grammar.patterns.size ≤ Compiler.idRange) :
    source.Flat grammar := by
  obtain ⟨-, size, each⟩ := Compiler.resolved_eq_ok flattened
  rw [patterns, size] at few
  have laid := Source.laid_of_written went few
  have same := Compiler.outline_of_laid laid
  have bounded : ∀ id, ∀ child ∈ written.outline.children id, child < written.patterns.size := by
    rw [same, laid.size]
    exact fun id child => Source.lt_of_mem_children
  have known : ∀ (id : PatternId) (pattern : Pattern), grammar.patterns[id]? = some pattern →
      pattern.isContainer = source.outline.isContainer id ∧
        source.outline.Flattens id pattern.children := by
    intro id pattern here
    rw [patterns] at here
    have inside : id < written.patterns.size := size ▸ (Array.getElem?_eq_some_iff.mp here).1
    obtain ⟨children, made, there⟩ := each id _ (Array.getElem?_eq_getElem inside)
    cases here.symm.trans there
    rw [Nat.mod_eq_of_lt (inside.trans_le few)] at made
    rw [← same]
    refine ⟨?_, Compiler.flattens_of_childrenOf bounded made⟩
    show _ = (written.patterns.getD id default).isContainer
    rw [Array.getD_eq_getD_getElem?, Array.getElem?_eq_getElem inside]
    rfl
  refine ⟨?_, fun id pattern here => (known id pattern here).1, fun id pattern here child member => ?_,
    fun id pattern here => (known id pattern here).2, fun name dangling => ?_⟩
  · rw [patterns, size, laid.size]
  · rw [patterns, size, laid.size]
    have reached := (((known id pattern here).2.mem_iff child).mp member).1
    rcases reached.mem_or_mem_children with listed | ⟨middle, listed⟩
    · exact Source.lt_of_mem_children listed
    · exact Source.lt_of_mem_children listed
  · obtain ⟨missing, -, failed⟩ := Compiler.resolved_of_dangling laid few dangling
    cases flattened.symm.trans failed

/-- Every pattern of a compiled grammar has the flat list of what its rule lists. -/
theorem flat_of_compile {source : Source} {grammar : Grammar}
    (compiled : source.compile engine = .ok grammar) (few : grammar.patterns.size ≤ Compiler.idRange) :
    source.Flat grammar := by
  obtain ⟨written, resolved, went, flattened, patterns, -⟩ := compile_eq_ok compiled
  exact flat_of_resolved went flattened patterns few

/-- **In a compiled grammar every pattern has the flat list of what its rule lists.** A source with a name
that dangles does not compile, even if each of its rules does. -/
theorem compile_flattens (engine : Regex.Engine) (source : Source) :
    (∀ grammar, source.compile engine = .ok grammar → grammar.patterns.size ≤ Compiler.idRange →
      source.Flat grammar) ∧
    ∀ compiler, source.written engine = .ok compiler → compiler.patterns.size ≤ Compiler.idRange →
      ∀ name, source.Dangling name → ∃ missing, source.Dangling missing ∧
        source.compile engine = .error (.error (.unresolvedInclude missing)) := by
  refine ⟨fun grammar compiled few => flat_of_compile compiled few,
    fun compiler went few name dangling => ?_⟩
  obtain ⟨missing, isMissing, failed⟩ :=
    Compiler.resolved_of_dangling (source.laid_of_written went few) few dangling
  refine ⟨missing, isMissing, ?_⟩
  unfold Source.compile
  rw [went, Fault.ok_bind, failed]
  rfl

/-- The rule that stands for what another one names. -/
def Rule.including (name : String) : Rule := ⟨{ Head.blank with reference := some name }, []⟩

/-- A grammar whose containers hold each other, and with a pattern that lists itself. -/
def rings : Source :=
  { Source.named "rings" with
    rules := [.including "#all"]
    repository := [
      ("a", ⟨{ Head.blank with single := some "" }, []⟩),
      ("all", ⟨Head.blank,
        [.including "#b", .including "#a", .including "#all", .including "$base"]⟩),
      ("b", ⟨{ Head.blank with single := some "" },
        [⟨Head.blank, [.including "#a", .including "#b"]⟩, .including "#b", .including "#a"]⟩)] }

/-- A grammar with a container that holds nothing there is. -/
def lost : Source := { Source.named "lost" with rules := [⟨Head.blank, [.including "#gone"]⟩] }

theorem dangling_lost : lost.Dangling "#gone" := by
  refine ⟨⟨_, List.mem_cons_of_mem _ List.mem_cons_self, _, List.mem_cons_self, rfl⟩, ?_⟩
  exact ⟨by decide, by decide, fun _ member => nomatch member⟩

theorem acyclic_rings : rings.outline.Acyclic 3 := by
  intro middle reached container leads
  have lists : ∀ other ∈ [4, 3, 1], rings.outline.isContainer other = true →
      other = 4 ∧ rings.outline.children other ⊆ [4, 3, 1] := by decide
  have listsInside : ∀ other ∈ [1, 3], rings.outline.isContainer other = true →
      rings.outline.children other ⊆ [1, 3] := by decide
  have among : middle ∈ [4, 3, 1] := reached.mem_of_settled (List.Subset.refl _)
    fun other member _ isContainer => (lists other member isContainer).2
  obtain rfl := (lists middle among container).1
  have inside : 4 ∈ [1, 3] := leads.mem_of_settled (List.Subset.refl _)
    fun other member _ => listsInside other member
  exact absurd inside (by decide)

/-- The containers that can be reached from the pattern that lists itself form no cycle, unlike those that
can be reached from the root. -/
theorem compile_flattens_rings :
    (∃ grammar, rings.compile .backtracking = .ok grammar ∧ grammar.patterns.size ≤ Compiler.idRange ∧
      rings.Flat grammar ∧
      grammar.patterns.toList.map (·.children) = [[3, 1], [], [3, 1], [1, 3], [1, 3]] ∧
      ¬ rings.outline.Acyclic 0 ∧ rings.outline.Acyclic 3 ∧
      ∃ full, (∀ list, rings.outline.Expansion [4, 3, 1] list ↔ list = full) ∧
        [1, 3] = full.eraseDups) ∧
    ∃ compiler, lost.written .backtracking = .ok compiler ∧ compiler.patterns.size ≤ Compiler.idRange ∧
      lost.Dangling "#gone" ∧ ∃ missing, lost.Dangling missing ∧
        lost.compile .backtracking = .error (.error (.unresolvedInclude missing)) := by
  constructor
  · have children : ((rings.compile .backtracking).toOption.map fun grammar =>
        grammar.patterns.toList.map (·.children)) = some [[3, 1], [], [3, 1], [1, 3], [1, 3]] := by
      decide +kernel
    obtain ⟨grammar, compiled, children⟩ := Option.map_eq_some_iff.mp children
    cases outcome : rings.compile .backtracking with
    | error failure =>
      rw [outcome] at compiled
      cases compiled
    | ok other =>
      rw [outcome] at compiled
      cases compiled
      have size : grammar.patterns.size = 5 := by
        simpa using congrArg List.length children
      have few : grammar.patterns.size ≤ Compiler.idRange := by
        rw [size]
        decide
      have flat := (compile_flattens .backtracking rings).1 grammar outcome few
      obtain ⟨region, here, lists⟩ : ∃ region, grammar.patterns[3]? = some region ∧
          region.children = [1, 3] := by
        have third := congrArg (·[3]?) children
        simpa using third
      refine ⟨grammar, rfl, few, flat, children, fun acyclic => ?_, acyclic_rings, ?_⟩
      · exact acyclic 2 (.listed (by decide)) (by decide) (.listed (by decide))
      · rw [← lists]
        exact (flat.flattens 3 region here).order acyclic_rings
  · obtain ⟨compiler, went, few⟩ : ∃ compiler, lost.written .backtracking = .ok compiler ∧
        compiler.patterns.size ≤ Compiler.idRange := ⟨_, rfl, by decide⟩
    exact ⟨compiler, went, few, dangling_lost,
      (compile_flattens .backtracking lost).2 compiler went few _ dangling_lost⟩

end Highlight.Grammar
