/-
**A pattern says what its rule is written to say.**

Rules are written with names and regexes, patterns have numbers instead. Once a number has been handed out
it goes on standing for the same thing, since the tables only grow:

* `Tables.Grows`: what is in the tables stays at its place;
* `nameOf?`: the name that a table of captures has for a group, that of the last key that means it;
* `Describes`: the numbers of a pattern stand for what its rule is written to name;
* `Compiler.captures_name`, `Compiler.pattern_describes`: compiling what a rule says of itself makes such a
  pattern;
* `Compiler.Builds.describes`: **so does compiling all rules, for each of them**.
-/

import Highlight.Proofs.Grammar.Needs

namespace Highlight.Grammar

variable {engine : Regex.Engine}

/-! ### Tables grow -/

namespace Tables

/-- Tables grow: what is in them stays at its place. -/
structure Grows (before after : Tables) : Prop where
  styles : ∀ (id : StyleId) name, before.styles[id]? = some name → after.styles[id]? = some name
  regexes : ∀ (id : RegexId) regex, before.regexes[id]? = some regex → after.regexes[id]? = some regex

variable {tables before middle after : Tables} {needs : List Need}

theorem Grows.refl (tables : Tables) : tables.Grows tables := ⟨fun _ _ same => same, fun _ _ same => same⟩

theorem Grows.trans (first : before.Grows middle) (second : middle.Grows after) :
    before.Grows after :=
  ⟨fun id name here => second.styles id name (first.styles id name here),
    fun id regex here => second.regexes id regex (first.regexes id regex here)⟩

theorem getElem?_push_of_some {α : Type} {entries : Array α} {id : Nat} {entry : α}
    (here : entries[id]? = some entry) (last : α) : (entries.push last)[id]? = some entry := by
  have inside := (Array.getElem?_eq_some_iff.mp here).1
  rw [Array.getElem?_push, if_neg inside.ne]
  exact here

/-- A need that is met adds its regex, if it is for one. -/
theorem grows_of_meet {need : Need} (went : tables.meet engine need = .ok after) :
    tables.Grows after ∧ ∃ compiled, List.Forall₂ (fun text regex => engine.compile text = .ok regex)
      need.text?.toList compiled ∧ after.regexes.toList = tables.regexes.toList ++ compiled := by
  cases need with
  | style name =>
    simp only [meet] at went
    split at went
    · cases went
      exact ⟨.refl _, [], .nil, (List.append_nil _).symm⟩
    · split at went
      · cases went
        exact ⟨⟨fun _ _ here => getElem?_push_of_some here _, fun _ _ same => same⟩, [], .nil,
          (List.append_nil _).symm⟩
      · cases went
  | regex text =>
    cases compiles : engine.compile text with
    | error error =>
      simp only [meet, compiles] at went
      cases went
    | ok compiled =>
      simp only [meet, compiles] at went
      cases went
      exact ⟨⟨fun _ _ same => same, fun _ _ here => getElem?_push_of_some here _⟩, [compiled],
        .cons compiles .nil, Array.toList_push⟩
  | group key =>
    simp only [meet] at went
    split at went
    · cases went
    · split at went
      · cases went
      · cases went
        exact ⟨.refl _, [], .nil, (List.append_nil _).symm⟩
  | kind id => cases went

/-- **Needs that are met add their regexes, in their order.** -/
theorem grows_of_meetAll (went : tables.meetAll engine needs = .ok after) :
    tables.Grows after ∧ ∃ compiled, List.Forall₂ (fun text regex => engine.compile text = .ok regex)
      (needs.filterMap Need.text?) compiled ∧
        after.regexes.toList = tables.regexes.toList ++ compiled := by
  induction needs generalizing tables with
  | nil =>
    cases went
    exact ⟨.refl _, [], .nil, (List.append_nil _).symm⟩
  | cons need rest ih =>
    rw [← List.singleton_append, meetAll_append, meetAll_singleton] at went
    obtain ⟨middle, first, went⟩ := Fault.bind_eq_ok.mp went
    obtain ⟨grows, front, compiles, adds⟩ := grows_of_meet first
    obtain ⟨growsRest, back, compilesRest, addsRest⟩ := ih went
    refine ⟨grows.trans growsRest, front ++ back, ?_, ?_⟩
    · have texts : (need :: rest).filterMap Need.text? =
          need.text?.toList ++ rest.filterMap Need.text? := by
        cases made : need.text? with
        | none => rw [List.filterMap_cons_none made]; rfl
        | some text => rw [List.filterMap_cons_some made]; rfl
      rw [texts]
      exact List.rel_append compiles compilesRest
    · rw [addsRest, adds, List.append_assoc]

end Tables

/-! ### What a pattern says -/

/-- The name that a table of captures has for a group: that of the last key that means the group. -/
def nameOf? (table : List (String × String)) (group : Nat) : Option String :=
  ((table.filter fun entry => Compiler.groupOfKey? entry.1 == some group).getLast?).map (·.2)

theorem nameOf?_concat (table : List (String × String)) (entry : String × String) (group : Nat) :
    nameOf? (table ++ [entry]) group =
      if Compiler.groupOfKey? entry.1 = some group then some entry.2 else nameOf? table group := by
  unfold nameOf?
  rw [List.filter_append, List.filter_singleton]
  by_cases means : Compiler.groupOfKey? entry.1 = some group
  · rw [if_pos means, beq_iff_eq.mpr means, cond_true, List.getLast?_concat]
    rfl
  · rw [if_neg means, beq_eq_false_iff_ne.mpr means, cond_false, List.append_nil]

/-- Numbers of styles for groups stand for the names that a table has for them. -/
def Names (tables : Tables) (styles : List (Option StyleId)) (table : List (String × String)) : Prop :=
  ∀ group, (styles[group]?.join).map (tables.styles[·]?) = (nameOf? table group).map some

/-- A pattern says what is written of its rule, whose first regex has been compiled as that of number
`start`. -/
structure Describes (tables : Tables) (head : Head) (start : Nat) (pattern : Pattern) : Prop where
  style : pattern.style.map (tables.styles[·]?) = head.name.map some
  opening : pattern.opening = head.opens.map fun _ => start % Compiler.idRange
  closing : pattern.closing = head.closing.map fun _ => (start + 1) % Compiler.idRange
  /-- A region that ends begins. -/
  kind : head.isMixed = false
  regexes : ∀ offset text, head.texts[offset]? = some text →
    tables.regexes[start + offset]?.map (·.source) = some text
  openingCaptures : Names tables pattern.openingCaptures head.openingTable
  closingCaptures : Names tables pattern.closingCaptures head.closingTable
  pushCapture : pattern.pushCapture = head.pushCapture
  endCapture : pattern.endCapture = head.endCapture
  closingLast : pattern.closingLast = head.closingLast

section Mono

variable {before after : Tables} (grows : before.Grows after)
include grows

theorem Tables.Grows.map_styles {id : Option StyleId} {name : Option String}
    (names : id.map (before.styles[·]?) = name.map some) :
    id.map (after.styles[·]?) = name.map some := by
  cases id with
  | none => exact names
  | some id =>
    cases name with
    | none => cases names
    | some name => exact congrArg some (grows.styles id name (Option.some.inj names))

theorem Names.mono {styles : List (Option StyleId)} {table : List (String × String)}
    (names : Names before styles table) : Names after styles table :=
  fun group => grows.map_styles (names group)

theorem Describes.mono {head : Head} {start : Nat} {pattern : Pattern}
    (describes : Describes before head start pattern) : Describes after head start pattern :=
  { describes with
    style := grows.map_styles describes.style
    regexes := fun offset text here => by
      obtain ⟨regex, there, same⟩ := Option.map_eq_some_iff.mp (describes.regexes offset text here)
      rw [grows.regexes _ _ there]
      exact congrArg some same
    openingCaptures := describes.openingCaptures.mono grows
    closingCaptures := describes.closingCaptures.mono grows }

end Mono

namespace Compiler

variable {before after : Compiler} {id : PatternId} {head : Head}

/-- The number of a style stands for its name. -/
theorem style_eq_ok {name : String} {number : StyleId} (went : style name before = .ok (number, after)) :
    after.styles[number]? = some name := by
  unfold style at went
  obtain ⟨compiler, middle, read, went⟩ := bind_eq_ok.mp went
  cases read
  cases found : before.styles.findIdx? (· == name) with
  | some known =>
    rw [found] at went
    cases went
    obtain ⟨inside, same, -⟩ := Array.findIdx?_eq_some_iff_getElem.mp found
    rw [Array.getElem?_eq_getElem inside, beq_iff_eq.mp same]
  | none =>
    simp only [found] at went
    split at went
    · cases went
    · cases went
      exact Array.getElem?_push_size

theorem OnlyMeets.grows {α : Type} {step : Step α} {needs : List Need}
    (only : OnlyMeets engine before step needs) {value : α} (went : step before = .ok (value, after)) :
    before.tables.Grows after.tables := (Tables.grows_of_meetAll (only.eq went).1).1

/-- What is true of the outcome of a fold, if each round leads on from what is true of the items before. -/
theorem foldlM_induction {α β : Type} {step : β → α → Step β} {motive : List α → β → Compiler → Prop}
    (advances : ∀ {done item value before next after}, motive done value before →
      step value item before = .ok (next, after) → motive (done ++ [item]) next after)
    {items : List α} {value result : β} (start : motive [] value before)
    (went : items.foldlM step value before = .ok (result, after)) : motive items result after := by
  induction items using List.reverseRecOn generalizing result after with
  | nil =>
    cases went
    exact start
  | append_singleton items item ih =>
    rw [List.foldlM_append, bind_eq_ok] at went
    obtain ⟨next, middle, front, last⟩ := went
    rw [List.foldlM_cons, bind_eq_ok] at last
    obtain ⟨final, further, here, done⟩ := last
    cases done
    exact advances (ih front) here

/-- A list that is made longer has no more styles. -/
theorem join_extended {α : Type} (out : Array (Option α)) (more index : Nat) :
    (out ++ Array.replicate more none)[index]?.join = out[index]?.join := by
  by_cases inside : index < out.size
  · rw [Array.getElem?_append_left inside]
  · rw [Array.getElem?_append_right (Nat.not_lt.mp inside), Array.getElem?_replicate,
      Array.getElem?_eq_none (Nat.not_lt.mp inside)]
    split <;> rfl

/-- **Groups get the styles that the table names for them.** -/
theorem captures_name (engine : Regex.Engine) {table : List (String × String)}
    {styles : List (Option StyleId)}
    (went : captures table before = .ok (styles, after)) : Names after.tables styles table := by
  unfold captures at went
  obtain ⟨out, middle, folded, done⟩ := bind_eq_ok.mp went
  cases done
  refine foldlM_induction (motive := fun done out compiler => Names compiler.tables out.toList done)
    (fun {done item value before next after} names went => ?_) (fun group => rfl) folded
  obtain ⟨key, name⟩ := item
  cases means : groupOfKey? key with
  | none =>
    simp only [means] at went
    cases went
  | some group =>
    simp only [means] at went
    split at went
    · cases went
    · obtain ⟨id, middle, styled, done⟩ := bind_eq_ok.mp went
      cases done
      have grows := (style_meets engine _ _).grows styled
      have named := style_eq_ok styled
      intro other
      rw [nameOf?_concat, means, Array.getElem?_toList]
      by_cases same : group = other
      · subst same
        have inside : group < (value ++ Array.replicate (group + 1 - value.size) none).size := by
          rw [Array.size_append, Array.size_replicate]
          omega
        rw [if_pos rfl, Array.getElem?_setIfInBounds_self_of_lt inside]
        exact congrArg some named
      · rw [if_neg fun equal => same (Option.some.inj equal), Array.getElem?_setIfInBounds_ne same,
          join_extended, ← Array.getElem?_toList]
        exact grows.map_styles (names other)

theorem source_of_compile {text : String} {regex : Regex} (compiled : engine.compile text = .ok regex) :
    regex.source = text := by
  obtain ⟨program, -, done⟩ := Fault.bind_eq_ok.mp compiled
  cases done
  rfl

/-- What stands at a place of one list has its partner at that place of the other. -/
theorem exists_getElem?_of_forall₂ {α β : Type} {related : α → β → Prop} {items : List α}
    {partners : List β} (pairs : List.Forall₂ related items partners) {index : Nat} {item : α}
    (here : items[index]? = some item) :
    ∃ partner, partners[index]? = some partner ∧ related item partner := by
  obtain ⟨inside, rfl⟩ := List.getElem?_eq_some_iff.mp here
  have insideToo : index < partners.length := pairs.length_eq ▸ inside
  exact ⟨partners[index], List.getElem?_eq_getElem insideToo, pairs.get inside insideToo⟩

theorem OnlyMeets.regexes_eq {α : Type} {step : Step α} {needs : List Need}
    (only : OnlyMeets engine before step needs) {value : α} (went : step before = .ok (value, after))
    (none : needs.filterMap Need.text? = []) : after.regexes = before.regexes := by
  obtain ⟨-, compiled, compiles, adds⟩ := Tables.grows_of_meetAll (only.eq went).1
  rw [none] at compiles
  cases compiles
  rw [List.append_nil] at adds
  exact Array.toList_inj.mp adds

theorem text?_tableNeeds (table : List (String × String)) :
    (tableNeeds table).filterMap Need.text? = [] := by
  unfold tableNeeds
  induction table with
  | nil => rfl
  | cons entry rest ih =>
    rw [List.flatMap_cons, List.filterMap_append, ih]
    rfl

theorem mapM_style_eq_ok (engine : Regex.Engine) {name : Option String} {number : Option StyleId}
    (went : name.mapM style before = .ok (number, after)) :
    number.map (after.styles[·]?) = name.map some ∧ after.regexes = before.regexes := by
  refine ⟨?_, (mapM_style_meets engine before name).regexes_eq went ?_⟩
  · cases name with
    | none =>
      cases went
      rfl
    | some name =>
      rw [Option.mapM_some, map_eq_pure_bind] at went
      obtain ⟨id, middle, styled, done⟩ := bind_eq_ok.mp went
      cases done
      exact congrArg some (style_eq_ok styled)
  · cases name <;> rfl

/-- **A pattern says what its rule is written to say.** -/
theorem pattern_describes {complete : Pattern → Pattern}
    (went : pattern engine id head before = .ok (complete, after)) (blank : Pattern) :
    Describes after.tables head before.regexes.size (complete blank) := by
  obtain ⟨styleId, named, opening, closing, compiled, openingCaptures, opened, closingCaptures,
    styled, own, captured, capturedToo, rfl⟩ := pattern_eq_ok went
  obtain ⟨names, same⟩ := mapM_style_eq_ok engine styled
  have growsOwn := (ownRegexes_meets named id head).grows own
  have growsOpening := (captures_meets engine compiled head.openingTable).grows captured
  have growsClosing := (captures_meets engine opened head.closingTable).grows capturedToo
  obtain ⟨kind, opens, closes, made, compiles, grown⟩ := ownRegexes_eq_ok own
  rw [same] at opens closes
  have behind := growsOpening.trans growsClosing
  refine ⟨(growsOwn.trans behind).map_styles names, opens, closes, kind, fun offset text here => ?_,
    (captures_name engine captured).mono growsClosing, captures_name engine capturedToo, rfl, rfl, rfl⟩
  obtain ⟨regex, there, compiledText⟩ := exists_getElem?_of_forall₂ compiles here
  have place : compiled.regexes[before.regexes.size + offset]? = some regex := by
    rw [grown, ← same]
    show (named.regexes ++ made.toArray)[named.regexes.size + offset]? = some regex
    rw [Array.getElem?_append_right (Nat.le_add_right _ _), Nat.add_sub_cancel_left,
      List.getElem?_toArray, there]
  rw [behind.regexes _ _ place]
  exact congrArg some (source_of_compile compiledText)

/-! ### Rules -/

/-- How many regexes these rules have. -/
def regexCount (rules : List Rule) : Nat := (rules.flatMap fun rule => rule.head.texts).length

theorem regexCount_cons (rule : Rule) (rest : List Rule) :
    regexCount (rule :: rest) = rule.head.texts.length + regexCount rest := by
  unfold regexCount
  rw [List.flatMap_cons, List.length_append]

theorem regexCount_append (front back : List Rule) :
    regexCount (front ++ back) = regexCount front + regexCount back := by
  unfold regexCount
  rw [List.flatMap_append, List.length_append]

/-- A pattern is described at once, with its regexes being added. -/
theorem pattern_grows {complete : Pattern → Pattern}
    (went : pattern engine id head before = .ok (complete, after)) :
    before.tables.Grows after.tables ∧ after.defaultExtend = before.defaultExtend ∧
      after.regexes.size = before.regexes.size + head.texts.length := by
  have only : OnlyMeets engine before _ _ := pattern_meets before id head
  refine ⟨only.grows went, ?_, ?_⟩
  · rw [(only.eq went).2]
    rfl
  · obtain ⟨styleId, named, opening, closing, compiled, openingCaptures, opened, closingCaptures,
      styled, own, captured, capturedToo, rfl⟩ := pattern_eq_ok went
    obtain ⟨-, -, -, made, compiles, rfl⟩ := ownRegexes_eq_ok own
    rw [(captures_meets engine _ _).regexes_eq capturedToo (text?_tableNeeds _),
      (captures_meets engine _ _).regexes_eq captured (text?_tableNeeds _),
      ← (mapM_style_eq_ok engine styled).2, compiles.length_eq]
    exact Array.size_append.trans (congrArg _ List.size_toArray)

namespace Builds

variable {listed : List Rule} {children : List ChildRef}

/-- Compiling rules adds to the tables, as many regexes as the rules have. -/
theorem grows (builds : Builds engine listed before children after) :
    before.tables.Grows after.tables ∧ after.defaultExtend = before.defaultExtend ∧
      after.regexes.size = before.regexes.size + regexCount listed := by
  induction builds with
  | nil => exact ⟨.refl _, rfl, rfl⟩
  | named name _ ih => exact ih
  | entry inside _ ih => exact ih
  | @rule head rules inner rest id complete children others before reserved described filled after
      reserves describes inside includes behind ihInside ihBehind =>
    cases reserves
    obtain ⟨grows, extend, size⟩ := pattern_grows describes
    obtain ⟨growsInside, extendInside, sizeInside⟩ := ihInside
    obtain ⟨growsBehind, extendBehind, sizeBehind⟩ := ihBehind
    refine ⟨(grows.trans growsInside).trans growsBehind,
      extendBehind.trans (extendInside.trans extend), ?_⟩
    rw [regexCount_cons, regexCount_append]
    have sizeBehind : after.regexes.size = filled.regexes.size + regexCount rest := sizeBehind
    have size : described.regexes.size = before.regexes.size + head.texts.length := size
    show after.regexes.size = _
    rw [sizeBehind, sizeInside, size]
    show _ = before.regexes.size + (head.texts.length + _)
    omega

/-- **Each pattern says what its rule is written to say**, as long as there are numbers for all of
them. -/
theorem describes (builds : Builds engine listed before children after)
    (few : after.patterns.size ≤ idRange) {index : Nat} {rule : Rule}
    (here : listed[index]? = some rule) :
    ∃ pattern, after.patterns[before.patterns.size + index]? = some pattern ∧
      pattern.maxExtend = rule.head.maxExtend.getD before.defaultExtend ∧
      Describes after.tables rule.head (before.regexes.size + regexCount (listed.take index)) pattern := by
  induction builds generalizing index with
  | nil => cases here
  | named name _ ih => exact ih few here
  | entry inside _ ih => exact ih few here
  | @rule head rules inner rest id complete children others before reserved described filled after
      reserves describes inside includes behind ihInside ihBehind =>
    obtain ⟨-, extend, sizeDescribed⟩ := pattern_grows describes
    obtain ⟨growsInside, extendInside, sizeInside⟩ := inside.grows
    have growsBehind : filled.tables.Grows after.tables := behind.grows.1
    have patternsDescribed := (pattern_interns describes).1.patterns
    have lengthInside := inside.size.1
    have sizeFill := size_patterns_fill filled id children complete
    have fewFilled : filled.patterns.size ≤ idRange :=
      (sizeFill ▸ behind.keeps.patterns).trans few
    cases reserves
    have lengthDescribed : described.patterns.size = before.patterns.size + 1 := by
      rw [patternsDescribed]
      exact Array.size_push _
    have number : before.patterns.size % idRange = before.patterns.size := Nat.mod_eq_of_lt (by omega)
    rw [number] at behind ihBehind sizeFill patternsDescribed
    -- Whatever comes behind leaves what has been filled in as it is.
    have stays : ∀ place < filled.patterns.size, after.patterns[place]? =
        (filled.fill before.patterns.size children complete).patterns[place]? := fun place inside =>
      behind.keeps.same few place (sizeFill ▸ inside)
    cases index with
    | zero =>
      cases here
      have blank : filled.patterns[before.patterns.size]? =
          some (Pattern.blank before.patterns.size (head.maxExtend.getD before.defaultExtend)) := by
        rw [inside.keeps.same fewFilled _ (by omega), patternsDescribed]
        exact Array.getElem?_push_size
      refine ⟨complete (Pattern.blank before.patterns.size
        (head.maxExtend.getD before.defaultExtend)), ?_, ?_, ?_⟩
      · rw [Nat.add_zero, stays _ (by omega)]
        rw [getElem?_patterns_fill, if_pos rfl, blank]
        rfl
      · obtain ⟨styleId, named, opening, closing, compiled, openingCaptures, opened, closingCaptures,
          -, -, -, -, rfl⟩ := pattern_eq_ok describes
        rfl
      · exact (pattern_describes describes _).mono (growsInside.trans growsBehind)
    | succ index =>
      rw [List.getElem?_cons_succ] at here
      rw [List.take_succ_cons, regexCount_cons]
      rcases lt_or_ge index inner.length with isInner | isBehind
      · rw [List.getElem?_append_left isInner] at here
        obtain ⟨pattern, there, reach, told⟩ := ihInside fewFilled here
        have place : described.patterns.size + index = before.patterns.size + (index + 1) := by omega
        rw [place] at there
        refine ⟨pattern, ?_, reach.trans (by rw [extend]), ?_⟩
        · rw [stays _ (Array.getElem?_eq_some_iff.mp there).1]
          have other : before.patterns.size ≠ before.patterns.size + (index + 1) := by omega
          rw [getElem?_patterns_fill, if_neg other, there]
        · rw [List.take_append_of_le_length isInner.le, ← Nat.add_assoc]
          exact sizeDescribed ▸ told.mono growsBehind
      · rw [List.getElem?_append_right isBehind] at here
        obtain ⟨pattern, there, reach, told⟩ := ihBehind few here
        have place : (filled.fill before.patterns.size children complete).patterns.size +
            (index - inner.length) = before.patterns.size + (index + 1) := by omega
        rw [place] at there
        refine ⟨pattern, there, reach.trans (by rw [← extend, ← extendInside]; rfl), ?_⟩
        have size : (filled.fill before.patterns.size children complete).regexes.size =
            before.regexes.size + (head.texts.length + regexCount inner) :=
          (sizeInside.trans (congrArg (· + _) sizeDescribed)).trans (Nat.add_assoc _ _ _)
        rw [size, Nat.add_assoc] at told
        rw [List.take_append, List.take_of_length_le isBehind, regexCount_append]
        exact (Nat.add_assoc head.texts.length _ _) ▸ told

end Builds

end Compiler

end Highlight.Grammar
