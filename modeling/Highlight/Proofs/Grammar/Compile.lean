/-
**What every compiled grammar has.**

Compiling a rule adds patterns and regexes behind those that are there:

* `Grammar.Compiler.Keeps`: what a step of compiling leaves as it was, `Grammar.Compiler.Interns`: a
  step that makes styles and regexes only; `Grammar.Compiler.rule_compiled` is the step over a whole
  rule with the rules in it;
* `Grammar.wellFormed_of_compile`: **a compiled grammar has a root, and every regex that a region ends
  with**;
* `Grammar.root_of_compile`: its root is no region and has no style, unless a later rule has been given
  the number of the root for want of other numbers;
* `Grammar.isBlank_of_compile`: **where it has no patterns it is blank** then, and steady with that.
-/

import Highlight.Proofs.Fault
import Highlight.Proofs.Scan.Highlight
import Highlight.Grammar.Compile

namespace Highlight

/-- Regexes form a set exactly if all of them can be members of one. -/
theorem Regex.Engine.setError?_eq_none_iff {engine : Regex.Engine} {regexes : List Regex} :
    engine.setError? regexes = none ↔ ∀ regex ∈ regexes, regex.memberError? = none := by
  rw [← List.filterMap_eq_nil_iff]
  unfold setError?
  cases regexes.filterMap memberError? with
  | nil => exact iff_of_true rfl rfl
  | cons first rest => exact iff_of_false (fun fits => nomatch fits) (List.cons_ne_nil first rest)

namespace Grammar

variable {engine : Regex.Engine}

/-- Whether a rule matches nothing itself. -/
def Head.isContainer (head : Head) : Bool := head.single.isNone && head.opening.isNone

namespace Compiler

variable {α β : Type}

/-- Two steps went well if the first one did and the second one did with its outcome. -/
theorem bind_eq_ok {first : Step α} {second : α → Step β} {before : Compiler}
    {result : β × Compiler} :
    (first >>= second) before = .ok result ↔
      ∃ value middle, first before = .ok (value, middle) ∧ second value middle = .ok result := by
  show (first before >>= fun outcome => second outcome.1 outcome.2) = _ ↔ _
  cases first before with
  | error failure =>
    constructor
    · intro failed
      cases failed
    · rintro ⟨value, middle, failed, -⟩
      cases failed
  | ok outcome =>
    obtain ⟨value, middle⟩ := outcome
    constructor
    · intro went
      exact ⟨value, middle, rfl, went⟩
    · rintro ⟨found, other, same, went⟩
      cases same
      exact went

/-! ### What a step keeps -/

/-- Every regex that a region ends with is there. -/
def Known (compiler : Compiler) : Prop :=
  ∀ pattern ∈ compiler.patterns, ∀ id ∈ pattern.closing, id < compiler.regexes.size

/-- A step adds patterns and regexes, and as long as there are numbers for them it leaves the patterns
that are there as they are. -/
structure Keeps (before after : Compiler) : Prop where
  patterns : before.patterns.size ≤ after.patterns.size
  regexes : before.regexes.size ≤ after.regexes.size
  known : before.Known → after.Known
  same : after.patterns.size ≤ idRange → ∀ index < before.patterns.size,
    after.patterns[index]? = before.patterns[index]?

variable {before middle after : Compiler}

theorem Keeps.trans (first : Keeps before middle) (second : Keeps middle after) :
    Keeps before after := by
  refine ⟨first.patterns.trans second.patterns, first.regexes.trans second.regexes,
    fun known => second.known (first.known known), fun few index inside => ?_⟩
  rw [second.same few index (inside.trans_le first.patterns)]
  exact first.same (second.patterns.trans few) index inside

/-- A step that leaves the patterns alone and takes no regex away keeps everything. -/
theorem Keeps.of_patterns (same : after.patterns = before.patterns)
    (more : before.regexes.size ≤ after.regexes.size) : Keeps before after := by
  refine ⟨same ▸ le_rfl, more, fun known pattern member id closes => ?_, fun _ _ _ => by rw [same]⟩
  exact (known pattern (same ▸ member) id closes).trans_le more

theorem Keeps.refl (compiler : Compiler) : Keeps compiler compiler := .of_patterns rfl le_rfl

/-- A step makes styles and regexes only. -/
structure Interns (before after : Compiler) : Prop where
  patterns : after.patterns = before.patterns
  written : after.written = before.written
  repository : after.repository = before.repository
  regexes : before.regexes.size ≤ after.regexes.size

theorem Interns.refl (compiler : Compiler) : Interns compiler compiler := ⟨rfl, rfl, rfl, le_rfl⟩

theorem Interns.trans (first : Interns before middle) (second : Interns middle after) :
    Interns before after :=
  ⟨second.patterns.trans first.patterns, second.written.trans first.written,
    second.repository.trans first.repository, first.regexes.trans second.regexes⟩

theorem Interns.keeps (interns : Interns before after) : Keeps before after :=
  .of_patterns interns.patterns interns.regexes

/-- Steps that make styles and regexes only do so one after the other. -/
theorem interns_of_foldlM {step : β → α → Step β}
    (interns : ∀ {value item before after result},
      step value item before = .ok (result, after) → Interns before after) {items : List α}
    {value : β} {result : β} (went : items.foldlM step value before = .ok (result, after)) :
    Interns before after := by
  induction items generalizing value before with
  | nil =>
    cases went
    exact .refl _
  | cons item rest ih =>
    rw [List.foldlM_cons, bind_eq_ok] at went
    obtain ⟨next, middle, first, went⟩ := went
    exact (interns first).trans (ih went)

/-! ### The parts of a rule -/

theorem style_interns {name : String} {id : StyleId} (went : style name before = .ok (id, after)) :
    Interns before after := by
  unfold style at went
  obtain ⟨compiler, middle, read, went⟩ := bind_eq_ok.mp went
  cases read
  cases found : before.styles.findIdx? (· == name) with
  | some known =>
    rw [found] at went
    cases went
    exact .refl before
  | none =>
    simp only [found] at went
    split at went
    · cases went
    · cases went
      exact ⟨rfl, rfl, rfl, le_rfl⟩

/-- A regex gets a number of one that is there, if not its own one. -/
theorem regex_interns {source : String} {id : RegexId}
    (went : regex engine source before = .ok (id, after)) :
    Interns before after ∧ id < after.regexes.size := by
  unfold regex at went
  cases compiled : engine.compile source with
  | error error =>
    rw [compiled] at went
    cases went
  | ok regex =>
    rw [compiled] at went
    cases went
    refine ⟨⟨rfl, rfl, rfl, ?_⟩, ?_⟩
    · rw [Array.size_push]
      exact Nat.le_succ _
    · rw [Array.size_push]
      exact Nat.lt_succ_of_le (Nat.mod_le _ _)

theorem captures_interns {table : List (String × String)} {styles : List (Option StyleId)}
    (went : captures table before = .ok (styles, after)) : Interns before after := by
  unfold captures at went
  obtain ⟨out, middle, went, done⟩ := bind_eq_ok.mp went
  cases done
  refine interns_of_foldlM (fun {value item before after result} went => ?_) went
  obtain ⟨key, name⟩ := item
  cases group : groupOfKey? key with
  | none =>
    simp only [group] at went
    cases went
  | some number =>
    simp only [group] at went
    split at went
    · cases went
    · obtain ⟨id, middle, styled, done⟩ := bind_eq_ok.mp went
      cases done
      exact style_interns styled

/-- The regexes of a rule are there; a rule that is written without a closing one has none, and a
container has none at all. -/
theorem ownRegexes_interns {id : PatternId} {head : Head} {opening closing : Option RegexId}
    (went : ownRegexes engine id head before = .ok ((opening, closing), after)) :
    Interns before after ∧ (∀ regex ∈ closing, regex < after.regexes.size) ∧
      (head.closing = none → closing = none) ∧ opening.isNone = head.isContainer := by
  unfold ownRegexes at went
  unfold Head.isContainer
  cases single : head.single <;> cases first : head.opening <;> cases last : head.closing <;>
    simp only [single, first, last] at went
  case none.none.none =>
    cases went
    exact ⟨.refl before, (fun _ member => nomatch member), fun _ => rfl, rfl⟩
  case none.some.none =>
    obtain ⟨regex, middle, compiled, done⟩ := bind_eq_ok.mp went
    cases done
    exact ⟨(regex_interns compiled).1, (fun _ member => nomatch member), fun _ => rfl, rfl⟩
  case some.none.none =>
    obtain ⟨regex, middle, compiled, done⟩ := bind_eq_ok.mp went
    cases done
    exact ⟨(regex_interns compiled).1, (fun _ member => nomatch member), fun _ => rfl, rfl⟩
  case none.some.some =>
    obtain ⟨regex, middle, compiled, went⟩ := bind_eq_ok.mp went
    obtain ⟨other, further, compiledToo, done⟩ := bind_eq_ok.mp went
    cases done
    obtain ⟨interns, known⟩ := regex_interns compiledToo
    refine ⟨(regex_interns compiled).1.trans interns, fun id member => ?_, (fun none => nomatch none),
      rfl⟩
    cases member
    exact known
  all_goals cases went

/-- What a rule says of itself makes a pattern whose closing regex is there. -/
theorem pattern_interns {id : PatternId} {head : Head} {complete : Pattern → Pattern}
    (went : pattern engine id head before = .ok (complete, after)) :
    Interns before after ∧ ∀ blank,
      (∀ regex ∈ (complete blank).closing, regex < after.regexes.size) ∧
      (head.closing = none → (complete blank).closing = none) ∧
      (head.name = none → (complete blank).style = none) ∧
      (complete blank).isContainer = head.isContainer := by
  unfold pattern at went
  obtain ⟨style, named, styled, went⟩ := bind_eq_ok.mp went
  obtain ⟨⟨opening, closing⟩, compiled, own, went⟩ := bind_eq_ok.mp went
  obtain ⟨openingCaptures, opened, captured, went⟩ := bind_eq_ok.mp went
  obtain ⟨closingCaptures, closed, capturedToo, done⟩ := bind_eq_ok.mp went
  cases done
  obtain ⟨interns, known, unclosed, container⟩ := ownRegexes_interns own
  have internsRest := (captures_interns captured).trans (captures_interns capturedToo)
  have internsStyle : Interns before named ∧ (head.name = none → style = none) := by
    cases name : head.name with
    | none =>
      rw [name] at styled
      cases styled
      exact ⟨.refl before, fun _ => rfl⟩
    | some written =>
      rw [name, Option.mapM_some, map_eq_pure_bind] at styled
      obtain ⟨id, middle, found, done⟩ := bind_eq_ok.mp styled
      cases done
      exact ⟨style_interns found, fun none => nomatch none⟩
  refine ⟨(internsStyle.1.trans interns).trans internsRest,
    fun blank => ⟨?_, unclosed, internsStyle.2, container⟩⟩
  exact fun regex member => (known regex member).trans_le internsRest.regexes

/-! ### Rules -/

/-- A pattern is filled in at its number, and so are its children. -/
def fill (compiler : Compiler) (id : PatternId) (children : List ChildRef)
    (complete : Pattern → Pattern) : Compiler :=
  { compiler with
    written := compiler.written.setIfInBounds id children
    patterns := compiler.patterns.modify id complete }

section Fill

variable (compiler : Compiler) (id : PatternId) (children : List ChildRef)
  (complete : Pattern → Pattern)

@[simp]
theorem size_patterns_fill :
    (compiler.fill id children complete).patterns.size = compiler.patterns.size :=
  Array.size_modify

@[simp]
theorem size_written_fill :
    (compiler.fill id children complete).written.size = compiler.written.size :=
  Array.size_setIfInBounds

theorem getElem?_patterns_fill (index : Nat) :
    (compiler.fill id children complete).patterns[index]? =
      if id = index then compiler.patterns[index]?.map complete else compiler.patterns[index]? :=
  Array.getElem?_modify

theorem getElem?_written_fill (index : Nat) :
    (compiler.fill id children complete).written[index]? =
      if id = index then if id < compiler.written.size then some children else none
      else compiler.written[index]? :=
  Array.getElem?_setIfInBounds

end Fill

/-- A new pattern is filled in, which leaves those that were there before as they are. -/
theorem Keeps.complete (keeps : Keeps before middle)
    (more : before.patterns.size < middle.patterns.size) (children : List ChildRef)
    {complete : Pattern → Pattern}
    (closes : ∀ blank, ∀ regex ∈ (complete blank).closing, regex < middle.regexes.size) :
    Keeps before (middle.fill (before.patterns.size % idRange) children complete) := by
  refine ⟨?_, keeps.regexes, ?_, ?_⟩
  · rw [size_patterns_fill]
    exact keeps.patterns
  · intro known pattern member regex closing
    obtain ⟨index, here⟩ := Array.mem_iff_getElem?.mp member
    rw [getElem?_patterns_fill] at here
    split at here
    · obtain ⟨blank, -, rfl⟩ := Option.map_eq_some_iff.mp here
      exact closes blank regex closing
    · exact keeps.known known pattern (Array.mem_of_getElem? here) regex closing
  · intro few index inside
    rw [size_patterns_fill] at few
    rw [getElem?_patterns_fill, Nat.mod_eq_of_lt (more.trans_le few), if_neg inside.ne']
    exact keeps.same few index inside

/-- A new pattern behind the others has no regex yet. -/
theorem reserve_keeps {head : Head} {id : PatternId}
    (went : reserve head before = .ok (id, after)) :
    Keeps before after ∧ id = before.patterns.size % idRange ∧
      after.patterns.size = before.patterns.size + 1 := by
  cases went
  refine ⟨⟨?_, le_rfl, ?_, fun _ index inside => ?_⟩, rfl, Array.size_push _⟩
  · rw [Array.size_push]
    exact Nat.le_succ _
  · intro known pattern member regex closing
    rcases Array.mem_push.mp member with old | rfl
    · exact known pattern old regex closing
    · cases closing
  · rw [Array.getElem?_push_lt inside, Array.getElem?_eq_getElem inside]

/-- A rule is given a number, then what it says of itself is compiled, then the rules in it; with that
its pattern is completed. -/
theorem rule_eq_ok {head : Head} {inner : List Rule} {id : PatternId}
    (went : rule engine ⟨head, inner⟩ before = .ok (id, after)) :
    ∃ reserved complete described children filled,
      reserve head before = .ok (id, reserved) ∧
      pattern engine id head reserved = .ok (complete, described) ∧
      rules engine inner described = .ok (children, filled) ∧
      after = filled.fill id children complete := by
  rw [rule] at went
  obtain ⟨number, reserved, reserves, went⟩ := bind_eq_ok.mp went
  obtain ⟨complete, described, describes, went⟩ := bind_eq_ok.mp went
  obtain ⟨children, filled, compiles, went⟩ := bind_eq_ok.mp went
  obtain ⟨⟨⟩, completed, completes, done⟩ := bind_eq_ok.mp went
  cases done
  cases completes
  exact ⟨reserved, complete, described, children, filled, reserves, describes, compiles, rfl⟩

/-- Of the rules in a rule, an include is noted and every other one is compiled. -/
theorem rules_cons_eq_ok {first : Rule} {rest : List Rule} {children : List ChildRef}
    (went : rules engine (first :: rest) before = .ok (children, after)) :
    (∃ name others, first.head.reference = some name ∧ children = .include name :: others ∧
      rules engine rest before = .ok (others, after)) ∨
    ∃ id middle others, first.head.reference = none ∧ children = .pattern id :: others ∧
      rule engine first before = .ok (id, middle) ∧ rules engine rest middle = .ok (others, after) := by
  rw [rules] at went
  cases included : first.head.reference with
  | some name =>
    simp only [included] at went
    obtain ⟨child, middle, same, went⟩ := bind_eq_ok.mp went
    cases same
    obtain ⟨others, filled, compiles, done⟩ := bind_eq_ok.mp went
    cases done
    exact Or.inl ⟨name, others, rfl, rfl, compiles⟩
  | none =>
    simp only [included] at went
    obtain ⟨id, middle, compiled, went⟩ := bind_eq_ok.mp went
    obtain ⟨child, further, same, went⟩ := bind_eq_ok.mp went
    cases same
    obtain ⟨others, filled, compiles, done⟩ := bind_eq_ok.mp went
    cases done
    exact Or.inr ⟨id, middle, others, rfl, rfl, compiled, compiles⟩

/-- What compiling a rule with the rules in it leads to. -/
structure Compiled (source : Rule) (before : Compiler) (id : PatternId) (after : Compiler) : Prop where
  keeps : Keeps before after
  number : id = before.patterns.size % idRange
  more : before.patterns.size < after.patterns.size
  own : ∃ pattern, after.patterns[id]? = some pattern ∧
    (source.head.closing = none → pattern.closing = none) ∧
    (source.head.name = none → pattern.style = none)

mutual

/-- **Compiling a rule keeps what has been compiled before**, and makes a pattern of the rule. -/
theorem rule_compiled : ∀ (source : Rule) {before after : Compiler} {id : PatternId},
    rule engine source before = .ok (id, after) → Compiled source before id after
  | ⟨head, inner⟩, before, after, id, went => by
    obtain ⟨reserved, complete, described, children, filled, reserves, describes, compiles, rfl⟩ :=
      rule_eq_ok went
    obtain ⟨keepsReserved, rfl, size⟩ := reserve_keeps reserves
    obtain ⟨interns, own⟩ := pattern_interns describes
    have keepsFilled := rules_keep inner compiles
    have more : before.patterns.size < filled.patterns.size := by
      have further := interns.keeps.patterns.trans keepsFilled.patterns
      omega
    have inside : before.patterns.size % idRange < filled.patterns.size :=
      (Nat.mod_le _ _).trans_lt more
    refine ⟨((keepsReserved.trans interns.keeps).trans keepsFilled).complete more children
      fun blank regex closing => ((own blank).1 regex closing).trans_le keepsFilled.regexes, rfl, ?_,
      complete filled.patterns[before.patterns.size % idRange], ?_, (own _).2.1, (own _).2.2.1⟩
    · rw [size_patterns_fill]
      exact more
    · rw [getElem?_patterns_fill, if_pos rfl, Array.getElem?_eq_getElem inside]
      rfl

theorem rules_keep : ∀ (sources : List Rule) {before after : Compiler} {children : List ChildRef},
    rules engine sources before = .ok (children, after) → Keeps before after
  | [], before, after, children, went => by
    rw [rules] at went
    cases went
    exact .refl _
  | first :: rest, before, after, children, went => by
    rcases rules_cons_eq_ok went with ⟨name, others, -, -, compiles⟩ |
      ⟨id, middle, others, -, -, compiled, compiles⟩
    · exact rules_keep rest compiles
    · exact (rule_compiled first compiled).keeps.trans (rules_keep rest compiles)

end

/-- An entry of the repository is compiled and gets its name. -/
theorem entry_eq_ok {name : String} {source : Rule} {done : Unit}
    (went : entry engine (name, source) before = .ok (done, after)) :
    ∃ id middle, rule engine source before = .ok (id, middle) ∧
      after = { middle with repository := middle.repository ++ [(name, id)] } := by
  rw [entry] at went
  obtain ⟨id, middle, compiled, names⟩ := bind_eq_ok.mp went
  cases names
  exact ⟨id, middle, compiled, rfl⟩

theorem entry_keeps {item : String × Rule} {done : Unit}
    (went : entry engine item before = .ok (done, after)) : Keeps before after := by
  obtain ⟨id, middle, compiled, rfl⟩ := entry_eq_ok went
  exact (rule_compiled _ compiled).keeps.trans (.of_patterns rfl le_rfl)

theorem entries_keep {items : List (String × Rule)} {done : Unit}
    (went : items.forM (entry engine) before = .ok (done, after)) : Keeps before after := by
  induction items generalizing before with
  | nil =>
    cases went
    exact .refl _
  | cons item rest ih =>
    rw [List.forM, bind_eq_ok] at went
    obtain ⟨⟨⟩, middle, first, went⟩ := went
    exact (entry_keeps first).trans (ih went)

/-! ### Children -/

/-- What a map that can fail makes of the entries of a list behind those it has done. -/
theorem mapIdxM_go_eq_ok {ε γ : Type} {step : Nat → α → Except ε γ} {items : List α}
    {done : Array γ} {results : List γ} (went : List.mapIdxM.go step items done = .ok results) :
    results.length = done.size + items.length ∧
      (∀ index < done.size, results[index]? = done[index]?) ∧
      ∀ index item, items[index]? = some item → ∃ result,
        results[done.size + index]? = some result ∧
          step (done.size + index) item = .ok result := by
  induction items generalizing done with
  | nil =>
    cases went
    exact ⟨Array.length_toList, fun index _ => Array.getElem?_toList,
      fun index item here => nomatch here⟩
  | cons item rest ih =>
    rw [List.mapIdxM.go, Fault.bind_eq_ok] at went
    obtain ⟨result, here, went⟩ := went
    obtain ⟨length, before, behind⟩ := ih went
    rw [Array.size_push] at length before behind
    refine ⟨by rw [length, List.length_cons]; omega, fun index inside => ?_, ?_⟩
    · rw [before index (by omega), Array.getElem?_push_lt inside, Array.getElem?_eq_getElem inside]
    · intro index other there
      cases index with
      | zero =>
        cases there
        exact ⟨result, by rw [Nat.add_zero, before _ (by omega), Array.getElem?_push_size], here⟩
      | succ index =>
        obtain ⟨found, place, went⟩ := behind index other there
        rw [Nat.add_right_comm] at place went
        exact ⟨found, place, went⟩

/-- A map that can fail fails at an entry of the list. -/
theorem mapIdxM_go_eq_error {ε γ : Type} {step : Nat → α → Except ε γ} {items : List α}
    {done : Array γ} {failure : ε} (failed : List.mapIdxM.go step items done = .error failure) :
    ∃ index item, step index item = .error failure := by
  induction items generalizing done with
  | nil => cases failed
  | cons item rest ih =>
    rw [List.mapIdxM.go, Fault.bind_eq_error] at failed
    rcases failed with here | ⟨result, -, failed⟩
    · exact ⟨_, item, here⟩
    · exact ih failed

/-- Flattening the children of the patterns changes nothing else of them. -/
theorem resolved_eq_ok (went : before.resolved = .ok after) :
    after.regexes = before.regexes ∧ after.patterns.size = before.patterns.size ∧
      ∀ (index : Nat) (pattern : Pattern), before.patterns[index]? = some pattern →
        ∃ children, before.childrenOf (index % idRange) = .ok children ∧
          after.patterns[index]? = some { pattern with children := children } := by
  unfold resolved at went
  obtain ⟨patterns, mapped, done⟩ := Fault.bind_eq_ok.mp went
  cases done
  have list : _ = (.ok patterns.toList : Except Error (List Pattern)) :=
    congrArg (fun outcome => Array.toList <$> outcome) mapped
  rw [Array.toList_mapIdxM] at list
  obtain ⟨length, -, each⟩ := mapIdxM_go_eq_ok list
  refine ⟨rfl, by simpa using length, fun index pattern here => ?_⟩
  obtain ⟨result, there, made⟩ := each index pattern (by rwa [Array.getElem?_toList])
  obtain ⟨children, flattened, done⟩ := Fault.bind_eq_ok.mp made
  cases done
  refine ⟨children, by simpa using flattened, by simpa using there⟩

/-- Flattening fails for the children of some pattern. -/
theorem resolved_eq_error {cause : Error} (failed : before.resolved = .error cause) :
    ∃ id, before.childrenOf id = .error cause := by
  unfold resolved at failed
  rcases Fault.bind_eq_error.mp failed with mapping | ⟨patterns, -, done⟩
  · have list : _ = (.error cause : Except Error (List Pattern)) :=
      congrArg (fun outcome => Array.toList <$> outcome) mapping
    rw [Array.toList_mapIdxM] at list
    obtain ⟨index, pattern, failed⟩ := mapIdxM_go_eq_error list
    rcases Fault.bind_eq_error.mp failed with failed | ⟨children, -, done⟩
    · exact ⟨_, failed⟩
    · cases done
  · cases done

end Compiler

/-! ### Grammars -/

/-- The rules of the grammar itself are compiled first, then the entries of the repository. -/
theorem written_eq_ok {source : Source} {written : Compiler}
    (went : source.written engine = .ok written) :
    ∃ id rooted,
      Compiler.rule engine ⟨Head.blank, source.rules⟩
        ⟨source.maxExtend.getD defaultMaxExtend, #[defaultStyleName], #[], #[], #[], []⟩ =
          .ok (id, rooted) ∧
      source.repository.forM (Compiler.entry engine) rooted = .ok ((), written) := by
  unfold Source.written at went
  obtain ⟨⟨⟨⟩, final⟩, steps, done⟩ := Fault.bind_eq_ok.mp went
  cases done
  exact Compiler.bind_eq_ok.mp steps

/-- Of the rules that have been compiled the children of all patterns are flattened. -/
theorem compile_eq_ok {source : Source} {grammar : Grammar}
    (compiled : source.compile engine = .ok grammar) :
    ∃ written resolved, source.written engine = .ok written ∧ written.resolved = .ok resolved ∧
      grammar.patterns = resolved.patterns ∧ grammar.regexes = resolved.regexes := by
  unfold Source.compile at compiled
  obtain ⟨written, went, compiled⟩ := Fault.bind_eq_ok.mp compiled
  obtain ⟨resolved, resolves, compiled⟩ := Fault.bind_eq_ok.mp compiled
  have made : written.resolved = .ok resolved := by
    cases outcome : written.resolved with
    | error cause =>
      rw [outcome] at resolves
      cases resolves
    | ok found =>
      rw [outcome] at resolves
      cases resolves
      rfl
  refine ⟨written, resolved, went, made, ?_⟩
  simp only at compiled
  split at compiled
  · cases compiled
  · cases compiled
    exact ⟨rfl, rfl⟩

/-- A source without a repository compiles if its rules do and the regexes of all children form sets. -/
theorem compile_of_rules {source : Source} {id : PatternId} {written flat : Compiler}
    (alone : source.repository = [])
    (ruled : Compiler.rule engine ⟨Head.blank, source.rules⟩
      ⟨source.maxExtend.getD defaultMaxExtend, #[defaultStyleName], #[], #[], #[], []⟩ =
        .ok (id, written))
    (flattened : written.resolved = .ok flat) {grammar : Grammar}
    (made : grammar = ⟨source.name, source.displayName, source.fileTypes, flat.styles, flat.regexes,
      flat.patterns, flat.patterns.foldl (fun most pattern => max most pattern.maxExtend) 0,
      source.approximate⟩)
    (fits : grammar.setError? engine = none) : source.compile engine = .ok grammar := by
  subst made
  unfold Source.compile
  refine Fault.bind_eq_ok.mpr ⟨written, Fault.bind_eq_ok.mpr
    ⟨((), written), Compiler.bind_eq_ok.mpr ⟨id, written, ruled, ?_⟩, rfl⟩, ?_⟩
  · rw [alone]
    rfl
  · refine Fault.bind_eq_ok.mpr ⟨flat, ?_, ?_⟩
    · rw [flattened]
      rfl
    · simp only [fits]
      rfl

/-- **A compiled grammar has a root, and every regex that a region ends with.** -/
theorem wellFormed_of_compile {source : Source} {grammar : Grammar}
    (compiled : source.compile engine = .ok grammar) : grammar.WellFormed := by
  obtain ⟨written, resolved, went, flattened, patterns, regexes⟩ := compile_eq_ok compiled
  obtain ⟨id, rooted, ruled, entries⟩ := written_eq_ok went
  have root := Compiler.rule_compiled _ ruled
  have more := Compiler.entries_keep entries
  obtain ⟨sameRegexes, size, each⟩ := Compiler.resolved_eq_ok flattened
  have known : written.Known :=
    more.known (root.keeps.known fun pattern member => absurd member (Array.not_mem_empty pattern))
  constructor
  · have inside : rootPattern < grammar.patterns.size := by
      rw [patterns, size]
      exact Nat.zero_lt_of_lt (root.more.trans_le more.patterns)
    exact ⟨_, Array.getElem?_eq_getElem inside⟩
  · intro pattern member regex closes
    rw [patterns] at member
    rw [regexes, sameRegexes]
    obtain ⟨index, here⟩ := Array.mem_iff_getElem?.mp member
    have inside : index < written.patterns.size := by
      rw [← size]
      exact (Array.getElem?_eq_some_iff.mp here).1
    obtain ⟨children, -, there⟩ := each index _ (Array.getElem?_eq_getElem inside)
    cases here.symm.trans there
    exact known _ (Array.getElem_mem inside) regex closes

/-- **The root of a compiled grammar is no region and has no style**, if there are numbers for all of
its rules. -/
theorem root_of_compile {source : Source} {grammar : Grammar}
    (compiled : source.compile engine = .ok grammar) (few : grammar.patterns.size ≤ Compiler.idRange) :
    ∃ pattern, grammar.pattern rootPattern = .ok pattern ∧ pattern.closing = none ∧
      pattern.style = none := by
  obtain ⟨written, resolved, went, flattened, patterns, -⟩ := compile_eq_ok compiled
  obtain ⟨id, rooted, ruled, entries⟩ := written_eq_ok went
  have root := Compiler.rule_compiled _ ruled
  have more := Compiler.entries_keep entries
  obtain ⟨-, size, each⟩ := Compiler.resolved_eq_ok flattened
  rw [patterns, size] at few
  obtain ⟨own, here, closing, style⟩ := root.own
  have atRoot : id = rootPattern := root.number
  rw [atRoot] at here
  have inside : rootPattern < rooted.patterns.size := Nat.zero_lt_of_lt root.more
  obtain ⟨children, -, there⟩ := each rootPattern own ((more.same few _ inside).trans here)
  refine ⟨{ own with children := children }, pattern_eq_ok_iff.mpr ?_, closing rfl, style rfl⟩
  rw [patterns]
  exact there

/-- **A compiled grammar is blank where it has no patterns**, if there are numbers for all of its
rules. -/
theorem isBlank_of_compile {source : Source} {grammar : Grammar}
    (compiled : source.compile engine = .ok grammar) (few : grammar.patterns.size ≤ Compiler.idRange)
    (isLocal : grammar.Local) : grammar.IsBlank := by
  obtain ⟨pattern, root, closing, unstyled⟩ := root_of_compile compiled few
  exact isBlank_of_root root closing unstyled (wellFormed_of_compile compiled) isLocal

theorem isSteady_of_compile {source : Source} {grammar : Grammar}
    (compiled : source.compile engine = .ok grammar) (few : grammar.patterns.size ≤ Compiler.idRange)
    (isLocal : grammar.Local) : grammar.IsSteady :=
  (isBlank_of_compile compiled few isLocal).isSteady (wellFormed_of_compile compiled) isLocal

end Grammar

end Highlight
