/-
**What the rules of a source need to be compiled.**

Compiling a rule hands out numbers of styles, compiles regexes and looks up groups. Each of these can fail,
and which one does can be told from the source alone:

* `Need`, `Source.needs`: what has to be there for the rules of a source, in the order in which it is asked
  for;
* `Met`: what makes it be there: each need fits, and there are numbers for all style names;
* `Compiler.rule_meets`: **compiling a rule meets the needs of the rules in it, in the order of their
  numbers**, and changes the tables of styles and regexes in no other way;
* `exists_written_iff`, `written_eq_error_iff`: **the rules of a source compile exactly if what they need
  can be met**, and fail for the first need that is not;
* `holds_of_written`: the tables then hold exactly what is needed.
-/

import Mathlib.Data.List.Induction
import Highlight.Proofs.Grammar.Builds
import Highlight.Proofs.Grammar.Outline

namespace Highlight.Grammar

variable {engine : Regex.Engine}

/-! ### Needs -/

/-- Something that has to be there for a rule to be compiled. -/
inductive Need where
  /-- A number for a style name. -/
  | style (name : String)
  /-- A regex that compiles. -/
  | regex (text : String)
  /-- A group that a key of a table of captures means, and a list that is long enough for it. -/
  | group (key : String)
  /-- To be of some kind, which the rule of this number is not. -/
  | kind (id : PatternId)
  deriving DecidableEq

/-- What a table of captures needs. -/
def tableNeeds (table : List (String × String)) : List Need :=
  table.flatMap fun (key, name) => [.group key, .style name]

/-- What a rule of a number needs, in the order in which it is asked for. -/
def Head.needs (id : PatternId) (head : Head) : List Need :=
  head.name.toList.map .style ++
    ((if head.isMixed then [.kind id] else head.texts.map .regex) ++
      (tableNeeds head.openingTable ++ tableNeeds head.closingTable))

/-- What rules need that get the numbers from `next` on. -/
def needsFrom (next : Nat) : List Rule → List Need
  | [] => []
  | rule :: rest => rule.head.needs (next % Compiler.idRange) ++ needsFrom (next + 1) rest

theorem needsFrom_append (next : Nat) (front back : List Rule) :
    needsFrom next (front ++ back) = needsFrom next front ++ needsFrom (next + front.length) back := by
  induction front generalizing next with
  | nil => rfl
  | cons rule rest ih =>
    rw [List.cons_append, needsFrom, needsFrom, ih, List.append_assoc, List.length_cons,
      Nat.add_assoc, Nat.add_comm 1]

theorem mem_needsFrom_iff {next : Nat} {rules : List Rule} {need : Need} :
    need ∈ needsFrom next rules ↔
      ∃ (index : Nat) (rule : Rule), rules[index]? = some rule ∧
        need ∈ rule.head.needs ((next + index) % Compiler.idRange) := by
  induction rules generalizing next with
  | nil => simp [needsFrom]
  | cons first rest ih =>
    rw [needsFrom, List.mem_append, ih]
    constructor
    · rintro (here | ⟨index, rule, isRule, member⟩)
      · exact ⟨0, first, rfl, here⟩
      · refine ⟨index + 1, rule, isRule, ?_⟩
        rwa [← Nat.add_assoc, Nat.add_right_comm]
    · rintro ⟨index, rule, isRule, member⟩
      cases index with
      | zero =>
        cases isRule
        exact Or.inl member
      | succ index =>
        refine Or.inr ⟨index, rule, isRule, ?_⟩
        rwa [Nat.add_right_comm, Nat.add_assoc]

/-- What the rules of a source need. -/
def Source.needs (source : Source) : List Need := needsFrom 0 source.listed

/-! ### Tables -/

/-- The tables of a compiler to which the rules add. -/
@[ext] structure Tables where
  styles : Array String
  regexes : Array Regex

namespace Tables

/-- The tables before any rule is compiled. -/
def initial : Tables := ⟨#[defaultStyleName], #[]⟩

/-- What a need adds to the tables, or why it is not met. -/
def meet (engine : Regex.Engine) (tables : Tables) : Need → Except Failure Tables
  | .style name =>
    if name ∈ tables.styles then .ok tables
    else if tables.styles.size < Compiler.maxStyles then
      .ok { tables with styles := tables.styles.push name }
    else .error (.error (.tooManyStyles (tables.styles.size + 1)))
  | .regex text =>
    match engine.compile text with
    | .ok regex => .ok { tables with regexes := tables.regexes.push regex }
    | .error error => .error (.error (.invalidRegex text ("Oniguruma error: " ++ error.message)))
  | .group key =>
    match Compiler.groupOfKey? key with
    | none => .error (.error (.invalidPattern s!"capture key '{key}' is not a group"))
    | some group =>
      if group + 1 > Compiler.maxCaptures then .error (.fault .overflow) else .ok tables
  | .kind id => .error (.error (.invalidPattern s!"pattern {id} mixes `match` with `begin`/`end`"))

/-- What needs add one after the other, or why the first one is not met that is not. -/
def meetAll (engine : Regex.Engine) (tables : Tables) (needs : List Need) : Except Failure Tables :=
  needs.foldlM (meet engine) tables

theorem meetAll_append (tables : Tables) (front back : List Need) :
    tables.meetAll engine (front ++ back) =
      tables.meetAll engine front >>= fun middle => middle.meetAll engine back :=
  List.foldlM_append

theorem meetAll_singleton (tables : Tables) (need : Need) :
    tables.meetAll engine [need] = tables.meet engine need := by
  unfold meetAll
  rw [List.foldlM_cons]
  cases tables.meet engine need <;> rfl

end Tables

namespace Need

/-- The style name that needs a number. -/
def style? : Need → Option String
  | .style name => some name
  | _ => none

/-- The regex that has to compile. -/
def text? : Need → Option String
  | .regex text => some text
  | _ => none

/-- A need can be met, as long as there is a number for the style name it is for. -/
def Fits (engine : Regex.Engine) : Need → Prop
  | .style _ => True
  | .regex text => ∃ regex, engine.compile text = .ok regex
  | .group key => ∃ group, Compiler.groupOfKey? key = some group ∧ group + 1 ≤ Compiler.maxCaptures
  | .kind _ => False

end Need

/-- A rule whose needs can be met is of some kind. -/
theorem Head.kind_of_fits {head : Head} {id : PatternId} (fits : ∀ need ∈ head.needs id, need.Fits engine) :
    head.isMixed = false := by
  by_contra mixed
  refine fits (.kind id) ?_
  unfold needs
  rw [if_pos (Bool.not_eq_false _ ▸ mixed)]
  exact List.mem_append_right _ (List.mem_append_left _ (List.mem_singleton_self _))

/-- A rule of some kind needs the same whatever number it has. -/
theorem Head.needs_congr {head : Head} (kind : head.isMixed = false) (id other : PatternId) :
    head.needs id = head.needs other := by
  unfold needs
  rw [kind]
  rfl

/-- The names in the order in which they get numbers, each one where it comes first. -/
def styleTable (needs : List Need) : List String :=
  (defaultStyleName :: needs.filterMap Need.style?).eraseDups

/-- All of these needs can be met. -/
structure Met (engine : Regex.Engine) (needs : List Need) : Prop where
  fits : ∀ need ∈ needs, need.Fits engine
  styles : (styleTable needs).length ≤ Compiler.maxStyles

/-- Tables hold exactly what these needs are for. -/
structure Tables.Holds (engine : Regex.Engine) (tables : Tables) (needs : List Need) : Prop where
  styles : tables.styles.toList = styleTable needs
  regexes : List.Forall₂ (fun text regex => engine.compile text = .ok regex)
    (needs.filterMap Need.text?) tables.regexes.toList

theorem styleTable_style (needs : List Need) (name : String) :
    styleTable (needs ++ [.style name]) =
      if name ∈ styleTable needs then styleTable needs else styleTable needs ++ [name] := by
  unfold styleTable
  rw [List.filterMap_append, ← List.cons_append]
  simp only [List.mem_eraseDups]
  exact eraseDups_concat _ name

theorem styleTable_of_none (needs : List Need) {need : Need} (none : need.style? = none) :
    styleTable (needs ++ [need]) = styleTable needs := by
  unfold styleTable
  rw [List.filterMap_append, List.filterMap_cons_none none, List.filterMap_nil, List.append_nil]

theorem length_styleTable_le (front back : List Need) :
    (styleTable front).length ≤ (styleTable (front ++ back)).length := by
  unfold styleTable
  rw [List.filterMap_append, ← List.cons_append, List.eraseDups_append, List.length_append]
  exact Nat.le_add_right _ _

theorem Met.front {front back : List Need} (met : Met engine (front ++ back)) : Met engine front :=
  ⟨fun need member => met.fits need (List.mem_append_left _ member),
    (length_styleTable_le front back).trans met.styles⟩

namespace Tables

variable {tables after : Tables} {needs : List Need} {need : Need}

theorem Holds.mem_styles (holds : tables.Holds engine needs) {name : String} :
    name ∈ tables.styles ↔ name ∈ styleTable needs := by
  rw [← holds.styles, Array.mem_toList_iff]

/-- A need that has been met is added. -/
theorem Holds.meet (holds : tables.Holds engine needs) (went : tables.meet engine need = .ok after)
    (few : (styleTable needs).length ≤ Compiler.maxStyles) :
    need.Fits engine ∧ (styleTable (needs ++ [need])).length ≤ Compiler.maxStyles ∧
      after.Holds engine (needs ++ [need]) := by
  cases need with
  | style name =>
    have texts : (needs ++ [Need.style name]).filterMap Need.text? = needs.filterMap Need.text? := by
      rw [List.filterMap_append]
      exact List.append_nil _
    rw [styleTable_style]
    simp only [Tables.meet, holds.mem_styles] at went
    split at went
    · rename_i known
      cases went
      rw [if_pos known]
      exact ⟨trivial, few, by rw [styleTable_style, if_pos known]; exact holds.styles,
        texts ▸ holds.regexes⟩
    · rename_i unknown
      split at went
      · rename_i room
        cases went
        have size : tables.styles.size = (styleTable needs).length := congrArg List.length holds.styles
        rw [if_neg unknown]
        refine ⟨trivial, ?_, ?_, texts ▸ holds.regexes⟩
        · rw [List.length_append, List.length_singleton]
          omega
        · rw [styleTable_style, if_neg unknown, Array.toList_push, holds.styles]
      · cases went
  | regex text =>
    have same := styleTable_of_none needs (rfl : (Need.regex text).style? = none)
    rw [same]
    cases compiles : engine.compile text with
    | error error =>
      simp only [Tables.meet, compiles] at went
      cases went
    | ok compiled =>
      simp only [Tables.meet, compiles] at went
      cases went
      refine ⟨⟨compiled, compiles⟩, few, holds.styles.trans same.symm, ?_⟩
      rw [List.filterMap_append, Array.toList_push]
      exact List.rel_append holds.regexes (.cons compiles .nil)
  | group key =>
    have same := styleTable_of_none needs (rfl : (Need.group key).style? = none)
    rw [same]
    cases means : Compiler.groupOfKey? key with
    | none =>
      simp only [Tables.meet, means] at went
      cases went
    | some group =>
      simp only [Tables.meet, means] at went
      split at went
      · cases went
      · rename_i short
        cases went
        refine ⟨⟨group, means, Nat.not_lt.mp short⟩, few, holds.styles.trans same.symm, ?_⟩
        rw [List.filterMap_append]
        exact (List.append_nil _).symm ▸ holds.regexes
  | kind id => cases went

/-- A need that fits is met, as long as there are numbers for the style names. -/
theorem Holds.exists_meet (holds : tables.Holds engine needs) (fits : need.Fits engine)
    (few : (styleTable (needs ++ [need])).length ≤ Compiler.maxStyles) :
    ∃ after, tables.meet engine need = .ok after := by
  cases need with
  | style name =>
    simp only [Tables.meet, holds.mem_styles]
    split
    · exact ⟨tables, rfl⟩
    · rename_i unknown
      have size : tables.styles.size = (styleTable needs).length := congrArg List.length holds.styles
      rw [styleTable_style, if_neg unknown, List.length_append, List.length_singleton] at few
      exact ⟨_, if_pos (by omega)⟩
  | regex text =>
    obtain ⟨compiled, compiles⟩ := fits
    simp only [Tables.meet, compiles]
    exact ⟨_, rfl⟩
  | group key =>
    obtain ⟨group, means, short⟩ := fits
    simp only [Tables.meet, means, if_neg (Nat.not_lt.mpr short)]
    exact ⟨_, rfl⟩
  | kind id => exact fits.elim

theorem holds_initial : initial.Holds engine [] := ⟨rfl, .nil⟩

/-- **Needs are met only if all of them can be**, and then the tables hold exactly what they are for. -/
theorem holds_of_meetAll (went : initial.meetAll engine needs = .ok tables) :
    Met engine needs ∧ tables.Holds engine needs := by
  induction needs using List.reverseRecOn generalizing tables with
  | nil =>
    cases went
    exact ⟨⟨fun need member => (nomatch member), by decide⟩, holds_initial⟩
  | append_singleton needs need ih =>
    rw [meetAll_append] at went
    obtain ⟨middle, front, last⟩ := Fault.bind_eq_ok.mp went
    rw [meetAll_singleton] at last
    obtain ⟨met, holds⟩ := ih front
    obtain ⟨fits, few, after⟩ := holds.meet last met.styles
    refine ⟨⟨fun other member => ?_, few⟩, after⟩
    rcases List.mem_append.mp member with known | here
    · exact met.fits other known
    · rw [List.mem_singleton.mp here]
      exact fits

/-- Needs are met if all of them can be. -/
theorem exists_meetAll (met : Met engine needs) : ∃ tables, initial.meetAll engine needs = .ok tables := by
  induction needs using List.reverseRecOn with
  | nil => exact ⟨initial, rfl⟩
  | append_singleton needs need ih =>
    obtain ⟨middle, front⟩ := ih met.front
    obtain ⟨after, last⟩ := (holds_of_meetAll front).2.exists_meet
      (met.fits need (List.mem_append_right _ List.mem_cons_self)) met.styles
    exact ⟨after, by rw [meetAll_append, front, Fault.ok_bind, meetAll_singleton, last]⟩

/-- Where needs are not met there is a first one that is not. -/
theorem meetAll_eq_error_iff {failure : Failure} :
    tables.meetAll engine needs = .error failure ↔ ∃ front need back middle, needs = front ++ need :: back ∧
      tables.meetAll engine front = .ok middle ∧ middle.meet engine need = .error failure := by
  induction needs generalizing tables with
  | nil =>
    constructor
    · intro failed
      cases failed
    · rintro ⟨front, need, back, middle, split, -⟩
      cases front <;> cases split
  | cons first rest ih =>
    rw [← List.singleton_append, meetAll_append, meetAll_singleton, Fault.bind_eq_error]
    constructor
    · rintro (here | ⟨middle, met, behind⟩)
      · exact ⟨[], first, rest, tables, rfl, rfl, here⟩
      · obtain ⟨front, need, back, last, rfl, went, failed⟩ := ih.mp behind
        refine ⟨first :: front, need, back, last, rfl, ?_, failed⟩
        rw [← List.singleton_append, meetAll_append, meetAll_singleton, met, Fault.ok_bind, went]
    · rintro ⟨front, need, back, last, split, went, failed⟩
      cases front with
      | nil =>
        cases split
        cases went
        exact Or.inl failed
      | cons other front =>
        cases split
        rw [← List.singleton_append, meetAll_append, meetAll_singleton] at went
        obtain ⟨middle, met, went⟩ := Fault.bind_eq_ok.mp went
        exact Or.inr ⟨middle, met, ih.mpr ⟨front, need, back, last, rfl, went, failed⟩⟩

end Tables

/-! ### Steps that meet needs -/

namespace Compiler

variable {α β : Type} {before after : Compiler} {needs more : List Need}

/-- The tables of a compiler. -/
def tables (compiler : Compiler) : Tables := ⟨compiler.styles, compiler.regexes⟩

/-- A compiler with other tables. -/
def withTables (compiler : Compiler) (tables : Tables) : Compiler :=
  { compiler with styles := tables.styles, regexes := tables.regexes }

/-- A step leads to the tables that meeting these needs leads to, and fails where they are not met. -/
def Meets (engine : Regex.Engine) (before : Compiler) (step : Step α) (needs : List Need) : Prop :=
  (step before).map (fun result => result.2.tables) = before.tables.meetAll engine needs

/-- A step meets these needs and changes nothing but the tables. -/
def OnlyMeets (engine : Regex.Engine) (before : Compiler) (step : Step α) (needs : List Need) : Prop :=
  (step before).map Prod.snd = (before.tables.meetAll engine needs).map before.withTables

theorem OnlyMeets.meets {step : Step α} (only : OnlyMeets engine before step needs) :
    Meets engine before step needs := by
  unfold OnlyMeets at only
  unfold Meets
  cases went : step before with
  | error failure =>
    rw [went] at only
    cases met : before.tables.meetAll engine needs with
    | error other =>
      rw [met] at only
      cases only
      rfl
    | ok found =>
      rw [met] at only
      cases only
  | ok outcome =>
    rw [went] at only
    cases met : before.tables.meetAll engine needs with
    | error other =>
      rw [met] at only
      cases only
    | ok found =>
      rw [met] at only
      exact congrArg (Except.map tables) only

/-- What has become of the compiler when a step only met needs. -/
theorem OnlyMeets.eq {step : Step α} (only : OnlyMeets engine before step needs) {value : α}
    (went : step before = .ok (value, after)) :
    before.tables.meetAll engine needs = .ok after.tables ∧ after = before.withTables after.tables := by
  unfold OnlyMeets at only
  rw [went] at only
  obtain ⟨tables, met, made⟩ := Fault.map_eq_ok.mp only.symm
  subst made
  exact ⟨met, rfl⟩

theorem Meets.eq {step : Step α} (meets : Meets engine before step needs) {value : α}
    (went : step before = .ok (value, after)) : before.tables.meetAll engine needs = .ok after.tables := by
  unfold Meets at meets
  rw [went] at meets
  exact meets.symm

theorem onlyMeets_pure (before : Compiler) (value : α) : OnlyMeets engine before (pure value) [] := rfl

theorem OnlyMeets.bind {first : Step α} {second : α → Step β} (only : OnlyMeets engine before first needs)
    (rest : ∀ value after, first before = .ok (value, after) → OnlyMeets engine after (second value) more) :
    OnlyMeets engine before (first >>= second) (needs ++ more) := by
  unfold OnlyMeets
  rw [Tables.meetAll_append]
  show ((first before) >>= fun outcome => second outcome.1 outcome.2).map Prod.snd = _
  cases went : first before with
  | error failure =>
    unfold OnlyMeets at only
    rw [went] at only
    cases met : before.tables.meetAll engine needs with
    | error other =>
      rw [met] at only
      cases only
      rfl
    | ok tables =>
      rw [met] at only
      cases only
  | ok outcome =>
    obtain ⟨value, after⟩ := outcome
    obtain ⟨met, same⟩ := only.eq went
    rw [met]
    have behind := rest value after went
    unfold OnlyMeets at behind
    rw [same] at behind ⊢
    exact behind

theorem Meets.bind {first : Step α} {second : α → Step β} (meets : Meets engine before first needs)
    (rest : ∀ value after, first before = .ok (value, after) → Meets engine after (second value) more) :
    Meets engine before (first >>= second) (needs ++ more) := by
  unfold Meets
  rw [Tables.meetAll_append]
  show ((first before) >>= fun outcome => second outcome.1 outcome.2).map _ = _
  cases went : first before with
  | error failure =>
    unfold Meets at meets
    rw [went] at meets
    rw [← meets]
    rfl
  | ok outcome =>
    obtain ⟨value, after⟩ := outcome
    rw [meets.eq went]
    exact rest value after went

/-! ### The parts of a rule -/

/-- A step that reads what has been compiled goes on with it. -/
theorem get_bind (before : Compiler) (second : Compiler → Step α) :
    (get >>= second) before = second before before := rfl

theorem style_meets (engine : Regex.Engine) (before : Compiler) (name : String) :
    OnlyMeets engine before (style name) [.style name] := by
  unfold OnlyMeets
  rw [Tables.meetAll_singleton]
  unfold Tables.meet tables style
  rw [get_bind]
  cases found : before.styles.findIdx? (· == name) with
  | some id =>
    obtain ⟨inside, same, -⟩ := Array.findIdx?_eq_some_iff_getElem.mp found
    have known : name ∈ before.styles := beq_iff_eq.mp same ▸ Array.getElem_mem inside
    simp only [if_pos known]
    rfl
  | none =>
    have unknown : name ∉ before.styles := fun member =>
      Bool.false_ne_true
        ((Array.findIdx?_eq_none_iff.mp found name member).symm.trans (beq_self_eq_true name))
    simp only [if_neg unknown]
    by_cases room : before.styles.size < maxStyles
    · rw [if_pos room, if_neg (Nat.not_le.mpr room)]
      rfl
    · rw [if_neg room, if_pos (Nat.not_lt.mp room)]
      rfl

theorem regex_meets (before : Compiler) (text : String) :
    OnlyMeets engine before (regex engine text) [.regex text] := by
  unfold OnlyMeets
  rw [Tables.meetAll_singleton]
  unfold regex
  cases compiles : engine.compile text with
  | error error =>
    simp only [Tables.meet, compiles]
    rfl
  | ok compiled =>
    simp only [Tables.meet, compiles]
    rfl

theorem refuse_meets (before : Compiler) (id : PatternId) :
    OnlyMeets engine before (refuse (.invalidPattern s!"pattern {id} mixes `match` with `begin`/`end`") :
      Step α) [.kind id] := rfl

theorem ownRegexes_meets (before : Compiler) (id : PatternId) (head : Head) :
    OnlyMeets engine before (ownRegexes engine id head)
      (if head.isMixed then [.kind id] else head.texts.map .regex) := by
  have one : ∀ (text : String) (pair : RegexId → Option RegexId × Option RegexId),
      OnlyMeets engine before (do return pair (← regex engine text)) [.regex text] := fun text pair =>
    (regex_meets before text).bind fun _ middle _ => onlyMeets_pure middle _
  unfold ownRegexes Head.isMixed Head.texts Head.opens
  cases head.single <;> cases head.opening <;> cases head.closing
  case none.none.none => exact onlyMeets_pure before _
  case none.some.none opening => exact one opening _
  case some.none.none single => exact one single _
  case none.some.some opening closing =>
    refine (regex_meets before opening).bind fun first middle _ => ?_
    exact (regex_meets middle closing).bind fun second final _ => onlyMeets_pure final _
  all_goals exact refuse_meets before id

theorem onlyMeets_foldlM {step : β → α → Step β} {needsOf : α → List Need}
    (meets : ∀ value item before, OnlyMeets engine before (step value item) (needsOf item)) (items : List α)
    (value : β) (before : Compiler) :
    OnlyMeets engine before (items.foldlM step value) (items.flatMap needsOf) := by
  induction items generalizing value before with
  | nil => exact onlyMeets_pure before value
  | cons item rest ih =>
    rw [List.foldlM_cons, List.flatMap_cons]
    exact (meets value item before).bind fun next middle _ => ih next middle

/-- Each entry of a table of captures needs a group and a style. -/
theorem captures_meets (engine : Regex.Engine) (before : Compiler) (table : List (String × String)) :
    OnlyMeets engine before (captures table) (tableNeeds table) := by
  unfold captures tableNeeds
  rw [← List.append_nil (table.flatMap _)]
  refine (onlyMeets_foldlM (fun out (key, name) before => ?_) table #[] before).bind
    fun out middle _ => onlyMeets_pure middle _
  have grouped : before.tables.meetAll engine [.group key, .style name] =
      before.tables.meet engine (.group key) >>= fun middle => middle.meetAll engine [.style name] := rfl
  cases means : groupOfKey? key with
  | none =>
    simp only [means]
    unfold OnlyMeets
    rw [grouped]
    simp only [Tables.meet, means]
    rfl
  | some group =>
    simp only [means]
    split
    · rename_i long
      unfold OnlyMeets
      rw [grouped]
      simp only [Tables.meet, means, if_pos long]
      rfl
    · rename_i short
      have fits : before.tables.meet engine (.group key) = .ok before.tables := by
        simp only [Tables.meet, means, if_neg short]
      unfold OnlyMeets
      rw [grouped, fits]
      exact (style_meets engine before name).bind fun style middle _ => onlyMeets_pure middle _

/-- The style that a rule names, if it names one. -/
theorem mapM_style_meets (engine : Regex.Engine) (before : Compiler) (name : Option String) :
    OnlyMeets engine before (name.mapM style) (name.toList.map .style) := by
  cases name with
  | none => exact onlyMeets_pure before _
  | some name =>
    exact (style_meets engine before name).bind fun style middle _ => onlyMeets_pure middle _

theorem pattern_meets (before : Compiler) (id : PatternId) (head : Head) :
    OnlyMeets engine before (pattern engine id head) (head.needs id) := by
  unfold pattern Head.needs
  refine (mapM_style_meets engine before head.name).bind fun styleId middle _ => ?_
  refine (ownRegexes_meets middle id head).bind fun regexes compiled _ => ?_
  refine (captures_meets engine compiled head.openingTable).bind fun opening opened _ => ?_
  rw [← List.append_nil (tableNeeds head.closingTable)]
  exact (captures_meets engine opened head.closingTable).bind fun closing final _ => onlyMeets_pure final _

/-! ### Rules -/

theorem meets_modify (before : Compiler) {change : Compiler → Compiler} (value : α)
    (same : ∀ compiler, (change compiler).tables = compiler.tables) :
    Meets engine before (do modify change; return value) [] :=
  congrArg Except.ok (same before)

theorem rules_cons_named {first : Rule} (rest : List Rule) {name : String}
    (included : first.head.reference = some name) :
    rules engine (first :: rest) = (do return .include name :: (← rules engine rest)) := by
  rw [rules, included]
  rfl

theorem rules_cons_rule {first : Rule} (rest : List Rule) (written : first.head.reference = none) :
    rules engine (first :: rest) = (do
      let id ← rule engine first
      return .pattern id :: (← rules engine rest)) := by
  rw [rules]
  simp only [written]
  rfl

mutual

/-- **Compiling a rule meets what the rules need that get numbers with it**, in the order of their
numbers, and fails if that is not met. -/
theorem rule_meets : ∀ (source : Rule) (before : Compiler),
    Meets engine before (rule engine source) (needsFrom before.patterns.size source.listed)
  | ⟨head, inner⟩, before => by
    rw [rule, Rule.listed, needsFrom, ← List.append_nil (needsFrom _ (Rule.listedAll inner))]
    have reserves : Meets engine before (reserve head) [] := rfl
    refine reserves.bind fun id reserved went => ?_
    obtain ⟨-, rfl, size⟩ := reserve_keeps went
    refine (pattern_meets reserved _ head).meets.bind fun complete described went => ?_
    rw [← size, ← (pattern_interns went).1.patterns]
    exact (rules_meet inner described).bind fun children filled _ =>
      meets_modify filled _ fun _ => rfl

theorem rules_meet : ∀ (sources : List Rule) (before : Compiler),
    Meets engine before (rules engine sources) (needsFrom before.patterns.size (Rule.listedAll sources))
  | [], before => by
    rw [rules]
    rfl
  | first :: rest, before => by
    rw [Rule.listedAll]
    cases included : first.head.reference with
    | some name =>
      rw [rules_cons_named rest included, ← List.append_nil (needsFrom _ _)]
      exact (rules_meet rest before).bind fun others filled _ => (rfl : Meets engine filled (pure _) [])
    | none =>
      rw [rules_cons_rule rest included, needsFrom_append,
        ← List.append_nil (needsFrom _ (Rule.listedAll rest))]
      refine (rule_meets first before).bind fun id middle ruled => ?_
      rw [← (rule_builds first ruled).size.1]
      exact (rules_meet rest middle).bind fun others filled _ => (rfl : Meets engine filled (pure _) [])

end

theorem entries_meet (items : List (String × Rule)) (before : Compiler) :
    Meets engine before (items.forM (entry engine))
      (needsFrom before.patterns.size (items.flatMap fun item => item.2.listed)) := by
  induction items generalizing before with
  | nil => rfl
  | cons item rest ih =>
    obtain ⟨name, source⟩ := item
    have compiles : Meets engine before (entry engine (name, source))
        (needsFrom before.patterns.size source.listed) := by
      rw [entry, ← List.append_nil (needsFrom _ _)]
      exact (rule_meets source before).bind fun id middle _ => rfl
    rw [List.flatMap_cons, needsFrom_append]
    show Meets engine before (entry engine (name, source) >>= fun _ => rest.forM (entry engine)) _
    refine compiles.bind fun done middle went => ?_
    obtain ⟨id, made, ruled, rfl⟩ := entry_eq_ok went
    have size := (rule_builds source ruled).size.1
    rw [← size]
    exact ih _

end Compiler

/-- **Compiling the rules of a source meets what they need in the order of their numbers**, and fails for
the first need that is not met. -/
theorem tables_written (source : Source) :
    (source.written engine).map Compiler.tables = Tables.initial.meetAll engine source.needs := by
  have meets : Compiler.Meets engine (Compiler.initial source)
      (do let _ ← Compiler.rule engine source.root; source.repository.forM (Compiler.entry engine))
      source.needs := by
    unfold Source.needs Source.listed
    rw [needsFrom_append]
    refine (Compiler.rule_meets source.root _).bind fun id rooted went => ?_
    have size : rooted.patterns.size = 0 + source.root.listed.length :=
      (Compiler.rule_builds source.root went).size.1
    rw [← size]
    exact Compiler.entries_meet source.repository rooted
  unfold Compiler.Meets at meets
  rw [show (Compiler.initial source).tables = Tables.initial from rfl] at meets
  rw [← meets]
  unfold Source.written
  show Except.map _ (((do
      let _ ← Compiler.rule engine source.root
      source.repository.forM (Compiler.entry engine) : Compiler.Step Unit) (Compiler.initial source)) >>=
        fun outcome => pure outcome.2) = _
  cases ((do
      let _ ← Compiler.rule engine source.root
      source.repository.forM (Compiler.entry engine) : Compiler.Step Unit) (Compiler.initial source)) <;> rfl

/-- The tables of a source whose rules have been compiled hold what the rules need, all of which can be
met. -/
theorem holds_of_written {source : Source} {compiler : Compiler}
    (went : source.written engine = .ok compiler) :
    Met engine source.needs ∧ compiler.tables.Holds engine source.needs := by
  have tables : (source.written engine).map Compiler.tables = _ := tables_written source
  rw [went] at tables
  exact Tables.holds_of_meetAll tables.symm

/-- **The rules of a source compile exactly if all that they need can be met.** -/
theorem exists_written_iff {source : Source} :
    (∃ compiler, source.written engine = .ok compiler) ↔ Met engine source.needs := by
  constructor
  · rintro ⟨compiler, went⟩
    exact (holds_of_written went).1
  · intro met
    obtain ⟨tables, went⟩ := Tables.exists_meetAll met
    rw [← tables_written source] at went
    obtain ⟨compiler, written, -⟩ := Fault.map_eq_ok.mp went
    exact ⟨compiler, written⟩

/-- **The rules of a source fail to compile for the first need that is not met.** -/
theorem written_eq_error_iff {source : Source} {failure : Failure} :
    source.written engine = .error failure ↔ ∃ front need back tables,
      source.needs = front ++ need :: back ∧ Tables.initial.meetAll engine front = .ok tables ∧
        tables.meet engine need = .error failure := by
  rw [← Tables.meetAll_eq_error_iff, ← tables_written]
  cases source.written engine with
  | error other =>
    constructor
    · intro same
      cases same
      rfl
    · intro same
      cases same
      rfl
  | ok compiler =>
    constructor <;> intro same <;> cases same

end Highlight.Grammar
