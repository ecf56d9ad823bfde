/-
**A rule in place of an include.**

An include of an entry of the repository may be replaced by the rule of that entry. All rules behind it get
larger numbers then, and the rules of the entry get numbers twice:

* `Source.Inlines`: a source with one of its includes replaced;
* `Rule.rows`: what the rules say of themselves and what they list, in the order of their numbers;
* `Rule.Interposed`: the rows of the rule come in between, and where the include was listed there is its
  number; `Source.exists_interposed`: **so it is with a rule in place of an include**;
* `origin`: the number that a rule had before; `Source.Replaces`: each rule is a copy of its origin, and
  lists copies of what that one lists; `Source.exists_replaces`: **with the rule of the entry in place of
  the include all rules are such copies**.
-/

import Highlight.Proofs.Grammar.Cover
import Highlight.Proofs.Grammar.Flatten

namespace Highlight.Grammar

variable {engine : Regex.Engine}

/-! ### Rules in place of includes -/

/-- One of these rules, or of the rules in them that get numbers, names this reference; a copy of another
rule stands in its place. -/
inductive Rule.Inlines (reference : String) (copy : Rule) : List Rule → List Rule → Prop where
  | here {first : Rule} {rest : List Rule} (names : first.head.reference = some reference) :
    Inlines reference copy (first :: rest) (copy :: rest)
  | inside {head : Head} {inner inlined rest : List Rule} (written : head.reference = none)
      (within : Inlines reference copy inner inlined) :
    Inlines reference copy (⟨head, inner⟩ :: rest) (⟨head, inlined⟩ :: rest)
  | behind {first : Rule} {rest inlined : List Rule} (later : Inlines reference copy rest inlined) :
    Inlines reference copy (first :: rest) (first :: inlined)

/-- In a source, a copy of another rule stands in the place of a rule that names this reference. -/
inductive Source.Inlines (reference : String) (copy : Rule) (source : Source) : Source → Prop where
  | rules {inlined : List Rule} (within : Rule.Inlines reference copy source.rules inlined) :
    Inlines reference copy source { source with rules := inlined }
  | entry {front back : List (String × Rule)} {name : String} {head : Head}
      {inner inlined : List Rule} (split : source.repository = front ++ (name, ⟨head, inner⟩) :: back)
      (within : Rule.Inlines reference copy inner inlined) :
    Inlines reference copy source
      { source with repository := front ++ (name, ⟨head, inlined⟩) :: back }

/-! ### Rows -/

/-- What a rule says of itself, whatever rule it names. -/
def Head.unnamed (head : Head) : Head := { head with reference := none }

/-- A rule that names no other one. -/
def Rule.unnamed (rule : Rule) : Rule := ⟨rule.head.unnamed, rule.rules⟩

/-- What a rule says of itself, and what it lists. -/
abbrev Row := Head × List ChildRef

/-- A row with other numbers. -/
def Row.renumber (change : ChildRef → ChildRef) (row : Row) : Row := (row.1, row.2.map change)

namespace Rule

/-- The rows of rules that get the numbers from `next` on. -/
def rows (next : Nat) (rules : List Rule) : List Row :=
  rules.mapIdx fun index rule => (rule.head.unnamed, refs (next + index + 1) rule.rules)

theorem rows_cons (next : Nat) (rule : Rule) (rest : List Rule) :
    rows next (rule :: rest) =
      (rule.head.unnamed, refs (next + 1) rule.rules) :: rows (next + 1) rest := by
  unfold rows
  rw [List.mapIdx_cons]
  simp only [Nat.add_zero, Nat.add_comm, Nat.add_left_comm]

theorem rows_append (next : Nat) (front back : List Rule) :
    rows next (front ++ back) = rows next front ++ rows (next + front.length) back := by
  induction front generalizing next with
  | nil => rfl
  | cons rule rest ih =>
    rw [List.cons_append, rows_cons, rows_cons, ih, List.length_cons, List.cons_append,
      Nat.add_assoc, Nat.add_comm 1]

theorem length_rows (next : Nat) (rules : List Rule) : (rows next rules).length = rules.length :=
  List.length_mapIdx

theorem rows_listed (next : Nat) (rule : Rule) :
    rows next rule.listed =
      (rule.head.unnamed, refs (next + 1) rule.rules) :: rows (next + 1) (listedAll rule.rules) := by
  rw [listed_eq, rows_cons]

/-- What rules say of themselves, in the order of their numbers. -/
theorem map_fst_rows (next : Nat) (rules : List Rule) :
    (rows next rules).map Prod.fst = rules.map (·.head.unnamed) := by
  induction rules generalizing next with
  | nil => rfl
  | cons rule rest ih => rw [rows_cons, List.map_cons, List.map_cons, ih]

theorem getElem?_rows (rules : List Rule) (id : Nat) :
    (rows 0 rules)[id]? =
      rules[id]?.map fun rule => (rule.head.unnamed, refs (id + 1) rule.rules) := by
  unfold rows
  rw [List.getElem?_mapIdx, Nat.zero_add]

/-! ### Numbers that change -/

variable {change : ChildRef → ChildRef}

/-- Rules list other numbers if they get other ones. -/
theorem map_refs (names : ∀ name, change (.include name) = .include name) {rules : List Rule}
    {old new : Nat}
    (numbers : ∀ index < (listedAll rules).length,
      change (.pattern (old + index)) = .pattern (new + index)) :
    (refs old rules).map change = refs new rules := by
  induction rules generalizing old new with
  | nil => rfl
  | cons first rest ih =>
    cases included : first.head.reference with
    | some name =>
      rw [listedAll_cons_named rest included] at numbers
      rw [refs_cons_named old rest included, refs_cons_named new rest included, List.map_cons, names,
        ih numbers]
    | none =>
      rw [listedAll_cons_rule rest included, List.length_append] at numbers
      have here := numbers 0 (Nat.lt_add_right _ first.listed_pos)
      rw [refs_cons_rule old rest included, refs_cons_rule new rest included, List.map_cons]
      refine congrArg₂ List.cons here (ih fun index inside => ?_)
      have there := numbers (first.listed.length + index) (Nat.add_lt_add_left inside _)
      rwa [← Nat.add_assoc, ← Nat.add_assoc] at there

/-- Rules that have the same rows but for their numbers, wherever they get them. -/
def Movable (rules : List Rule) : Prop :=
  ∀ (change : ChildRef → ChildRef) (old new : Nat), (∀ name, change (.include name) = .include name) →
    (∀ index < rules.length, change (.pattern (old + index)) = .pattern (new + index)) →
      (rows old rules).map (Row.renumber change) = rows new rules

theorem movable_nil : Movable [] := fun _ _ _ _ _ => rfl

theorem Movable.append {front back : List Rule} (first : Movable front) (second : Movable back) :
    Movable (front ++ back) := by
  intro change old new names numbers
  rw [List.length_append] at numbers
  rw [rows_append, rows_append, List.map_append,
    first change old new names fun index inside => numbers index (Nat.lt_add_right _ inside),
    second change _ (new + front.length) names fun index inside => ?_]
  have there := numbers (front.length + index) (Nat.add_lt_add_left inside _)
  rwa [← Nat.add_assoc, ← Nat.add_assoc] at there

mutual

/-- **A rule and those in it have the same rows but for their numbers.** -/
theorem movable_listed : ∀ rule : Rule, Movable rule.listed
  | ⟨head, inner⟩ => by
    intro change old new names numbers
    rw [listed, List.length_cons] at numbers
    have numbers : ∀ index < (listedAll inner).length,
        change (.pattern (old + 1 + index)) = .pattern (new + 1 + index) := fun index inside => by
      have there := numbers (1 + index) (by omega)
      rwa [← Nat.add_assoc, ← Nat.add_assoc] at there
    rw [rows_listed, rows_listed, List.map_cons, movable_listedAll inner change _ _ names numbers]
    exact congrArg (fun list => (head.unnamed, list) :: _) (map_refs names numbers)

theorem movable_listedAll : ∀ rules : List Rule, Movable (listedAll rules)
  | [] => movable_nil
  | first :: rest => by
    cases included : first.head.reference with
    | some name =>
      rw [listedAll_cons_named rest included]
      exact movable_listedAll rest
    | none =>
      rw [listedAll_cons_rule rest included]
      exact (movable_listed first).append (movable_listedAll rest)

end

theorem movable_flatMap (items : List (String × Rule)) :
    Movable (items.flatMap fun item => item.2.listed) := by
  induction items with
  | nil => exact movable_nil
  | cons item rest ih =>
    rw [List.flatMap_cons]
    exact (movable_listed item.2).append ih

theorem entries_append (next : Nat) (front back : List (String × Rule)) :
    entries next (front ++ back) = entries next front ++
      entries (next + (front.flatMap fun item => item.2.listed).length) back := by
  induction front generalizing next with
  | nil => rfl
  | cons item rest ih =>
    rw [List.cons_append, entries, entries, ih, List.flatMap_cons, List.length_append,
      List.cons_append, Nat.add_assoc]

/-- The entries of a repository get other numbers too. -/
theorem map_entries {change : ChildRef → ChildRef} (items : List (String × Rule)) {old new : Nat}
    (numbers : ∀ index < (items.flatMap fun item => item.2.listed).length,
      change (.pattern (old + index)) = .pattern (new + index)) :
    (entries old items).map (fun known => (known.1, change (.pattern known.2))) =
      (entries new items).map fun known => (known.1, .pattern known.2) := by
  induction items generalizing old new with
  | nil => rfl
  | cons item rest ih =>
    rw [List.flatMap_cons, List.length_append] at numbers
    have here := numbers 0 (Nat.lt_add_right _ item.2.listed_pos)
    rw [entries, entries, List.map_cons, List.map_cons]
    refine congrArg₂ List.cons (congrArg (Prod.mk item.1) here) (ih fun index inside => ?_)
    have there := numbers (item.2.listed.length + index) (Nat.add_lt_add_left inside _)
    rwa [← Nat.add_assoc, ← Nat.add_assoc] at there

end Rule

/-! ### Rows with a rule in between -/

/-- Numbers are changed back: the rule of that length that got the number `place` becomes an include again,
and the rules behind it get their numbers back. -/
structure Undoes (reference : String) (length place : Nat) (change : ChildRef → ChildRef) : Prop where
  names : ∀ name, change (.include name) = .include name
  before : ∀ id < place, change (.pattern id) = .pattern id
  here : change (.pattern place) = .include reference
  behind : ∀ id ≥ place, change (.pattern (id + length)) = .pattern id

namespace Rule

/-- Among rules that get numbers from `next` on, a copy of another rule has got the number `place`, in place
of an include. -/
def Interposed (reference : String) (copy : Rule) (next place : Nat) (listed inlined : List Rule) : Prop :=
  ∃ front back : List Row, place = next + front.length ∧
    rows next inlined = front ++ (rows place copy.listed ++ back) ∧
    listed.length = front.length + back.length ∧
    ∀ change, Undoes reference copy.listed.length place change →
      rows next listed = (front ++ back).map (Row.renumber change)

namespace Interposed

variable {reference : String} {copy : Rule} {next place : Nat} {listed inlined block : List Rule}

/-- The copy adds its rules behind those before it. -/
theorem bounds (interposed : Interposed reference copy next place listed inlined) :
    next ≤ place ∧ place ≤ next + listed.length ∧
      inlined.length = listed.length + copy.listed.length := by
  obtain ⟨front, back, rfl, made, length, -⟩ := interposed
  have longer := congrArg List.length made
  simp only [List.length_append, length_rows] at longer
  omega

theorem here (reference : String) (copy : Rule) (next : Nat) :
    Interposed reference copy next next [] copy.listed :=
  ⟨[], [], rfl, (List.append_nil _).symm, rfl, fun _ _ => rfl⟩

/-- Rules stand before the copy. -/
theorem before (interposed : Interposed reference copy (next + block.length) place listed inlined)
    (movable : Movable block) :
    Interposed reference copy next place (block ++ listed) (block ++ inlined) := by
  obtain ⟨least, -, -⟩ := interposed.bounds
  obtain ⟨front, back, rfl, made, length, undo⟩ := interposed
  refine ⟨rows next block ++ front, back, ?_, ?_, ?_, fun change undoes => ?_⟩
  · rw [List.length_append, length_rows, Nat.add_assoc]
  · rw [rows_append, made, List.append_assoc]
  · rw [List.length_append, List.length_append, length_rows, length, Nat.add_assoc]
  · have same := movable change next next undoes.names fun index inside =>
      undoes.before _ (by omega)
    rw [rows_append, undo change undoes]
    simp only [List.append_assoc, List.map_append, same]

/-- The numbers of rules behind the copy are larger by the number of its rules. -/
theorem later (interposed : Interposed reference copy next place listed inlined)
    {change : ChildRef → ChildRef} (undoes : Undoes reference copy.listed.length place change)
    (index : Nat) : change (.pattern (next + inlined.length + index)) =
      .pattern (next + listed.length + index) := by
  obtain ⟨-, most, length⟩ := interposed.bounds
  have same : next + inlined.length + index = next + listed.length + index + copy.listed.length := by
    omega
  rw [same]
  exact undoes.behind _ (by omega)

/-- Rules stand behind the copy. -/
theorem after (interposed : Interposed reference copy next place listed inlined)
    (movable : Movable block) :
    Interposed reference copy next place (listed ++ block) (inlined ++ block) := by
  have later : ∀ change, Undoes reference copy.listed.length place change → ∀ index : Nat,
      change (.pattern (next + inlined.length + index)) =
        .pattern (next + listed.length + index) := fun _ => interposed.later
  obtain ⟨front, back, rfl, made, length, undo⟩ := interposed
  refine ⟨front, back ++ rows (next + inlined.length) block, rfl, ?_, ?_, fun change undoes => ?_⟩
  · rw [rows_append, made]
    simp only [List.append_assoc]
  · rw [List.length_append, List.length_append, length_rows, length, Nat.add_assoc]
  · have same := movable change _ _ undoes.names fun index _ => later change undoes index
    rw [rows_append, undo change undoes]
    simp only [List.append_assoc, List.map_append, same]

/-- The copy stands in a rule. -/
theorem rule {inner changed : List Rule} (head : Head)
    (interposed : Interposed reference copy (next + 1) place (listedAll inner) (listedAll changed))
    (lists : ∀ change, Undoes reference copy.listed.length place change →
      (refs (next + 1) changed).map change = refs (next + 1) inner) :
    Interposed reference copy next place (⟨head, inner⟩ : Rule).listed
      (⟨head, changed⟩ : Rule).listed := by
  obtain ⟨front, back, rfl, made, length, undo⟩ := interposed
  refine ⟨(head.unnamed, refs (next + 1) changed) :: front, back, ?_, ?_, ?_, fun change undoes => ?_⟩
  · rw [List.length_cons, Nat.add_assoc, Nat.add_comm 1]
  · rw [rows_listed, made]
    rfl
  · rw [listed, List.length_cons, List.length_cons, length, Nat.add_right_comm]
  · rw [rows_listed, undo change undoes, ← lists change undoes]
    rfl

end Interposed

/-- **With a rule in place of an include its rows come in between**, and where the include was listed there
is the number of the rule. -/
theorem exists_interposed {reference : String} {copy : Rule} (whole : copy.head.reference = none)
    {rules inlined : List Rule} (inlines : Inlines reference copy rules inlined) (next : Nat) :
    ∃ place, Interposed reference copy next place (listedAll rules) (listedAll inlined) ∧
      ∀ change, Undoes reference copy.listed.length place change →
        (refs next inlined).map change = refs next rules := by
  -- By the place of the include: what stands before it keeps its numbers, what stands behind it gets later
  -- ones, and the rules around it list the same but for the number of the copy.
  induction inlines generalizing next with
  | @here first rest named =>
    have interposed := (Interposed.here reference copy next).after (movable_listedAll rest)
    rw [listedAll_cons_rule rest whole, listedAll_cons_named rest named]
    refine ⟨next, interposed, fun change undoes => ?_⟩
    rw [refs_cons_named next rest named, refs_cons_rule next rest whole, List.map_cons, undoes.here,
      map_refs undoes.names fun index _ => (Interposed.here reference copy next).later undoes index]
    rfl
  | @inside head inner inlined rest written within ih =>
    obtain ⟨place, interposed, lists⟩ := ih (next + 1)
    have whole := interposed.rule head lists
    rw [listedAll_cons_rule rest written, listedAll_cons_rule rest written]
    refine ⟨place, whole.after (movable_listedAll rest), fun change undoes => ?_⟩
    rw [refs_cons_rule next rest written, refs_cons_rule next rest written, List.map_cons,
      undoes.before next interposed.bounds.1,
      map_refs undoes.names fun index _ => whole.later undoes index]
  | @behind first rest inlined behind ih =>
    cases included : first.head.reference with
    | some name =>
      obtain ⟨place, interposed, lists⟩ := ih next
      rw [listedAll_cons_named rest included, listedAll_cons_named inlined included]
      refine ⟨place, interposed, fun change undoes => ?_⟩
      rw [refs_cons_named next rest included, refs_cons_named next inlined included, List.map_cons,
        undoes.names, lists change undoes]
    | none =>
      obtain ⟨place, interposed, lists⟩ := ih (next + first.listed.length)
      rw [listedAll_cons_rule rest included, listedAll_cons_rule inlined included]
      refine ⟨place, interposed.before (movable_listed first), fun change undoes => ?_⟩
      have here : next < place :=
        (Nat.lt_add_of_pos_right first.listed_pos).trans_le interposed.bounds.1
      rw [refs_cons_rule next rest included, refs_cons_rule next inlined included, List.map_cons,
        undoes.before next here, lists change undoes]

/-- **The same goes for the entries of a repository**, which get their numbers in the same way. -/
theorem exists_interposed_items {reference : String} {copy : Rule} (whole : copy.head.reference = none)
    (front back : List (String × Rule)) (name : String) (head : Head) {inner inlined : List Rule}
    (within : Inlines reference copy inner inlined) (next : Nat) :
    ∃ place, Interposed reference copy next place
        ((front ++ (name, ⟨head, inner⟩) :: back).flatMap fun item => item.2.listed)
        ((front ++ (name, ⟨head, inlined⟩) :: back).flatMap fun item => item.2.listed) ∧
      next < place ∧ ∀ change, Undoes reference copy.listed.length place change →
        (entries next (front ++ (name, ⟨head, inlined⟩) :: back)).map
            (fun known => (known.1, change (.pattern known.2))) =
          (entries next (front ++ (name, ⟨head, inner⟩) :: back)).map
            fun known => (known.1, .pattern known.2) := by
  obtain ⟨place, interposed, lists⟩ :=
    exists_interposed whole within (next + (front.flatMap fun item => item.2.listed).length + 1)
  have inItem := interposed.rule head lists
  have least := interposed.bounds.1
  simp only [List.flatMap_append, List.flatMap_cons]
  refine ⟨place, (inItem.after (movable_flatMap back)).before (movable_flatMap front), by omega,
    fun change undoes => ?_⟩
  have first := map_entries front fun index inside => undoes.before (next + index) (by omega)
  have last := map_entries back fun index _ => inItem.later undoes index
  rw [entries_append, entries_append, entries, entries, List.map_append, List.map_append, first,
    List.map_cons, List.map_cons, last, undoes.before _ (by omega)]

end Rule

/-! ### Sources -/

namespace Source

/-- The rule of the entry that an include with this name means. -/
def entry? (source : Source) (reference : String) : Option Rule :=
  (source.repository.find? fun entry => reference == "#" ++ entry.1).map (·.2)

/-- The rules of the grammar itself and the entries of its repository. -/
def items (source : Source) : List (String × Rule) := ("", source.root) :: source.repository

theorem listed_eq_items (source : Source) :
    source.listed = source.items.flatMap fun item => item.2.listed := rfl

theorem entries_items (source : Source) :
    Rule.entries 0 source.items = ("", 0) :: source.entries := by
  unfold items entries
  rw [Rule.entries, Nat.zero_add]

variable {source inlined : Source} {reference : String} {copy : Rule}

/-- **With a rule in place of an include the rows of a source have those of the rule in between.** -/
theorem exists_interposed (whole : copy.head.reference = none)
    (inlines : source.Inlines reference copy inlined) :
    ∃ place, Rule.Interposed reference copy 0 place source.listed inlined.listed ∧ 0 < place ∧
      ∀ change, Undoes reference copy.listed.length place change →
        inlined.entries.map (fun known => (known.1, change (.pattern known.2))) =
          source.entries.map fun known => (known.1, .pattern known.2) := by
  have split : ∃ front name head inner changed back, Rule.Inlines reference copy inner changed ∧
      source.items = front ++ (name, ⟨head, inner⟩) :: back ∧
      inlined.items = front ++ (name, ⟨head, changed⟩) :: back := by
    cases inlines with
    | rules within => exact ⟨[], _, _, _, _, source.repository, within, rfl, rfl⟩
    | @entry front back name head inner changed split within =>
      refine ⟨("", source.root) :: front, name, head, inner, changed, back, within, ?_, rfl⟩
      exact congrArg (("", source.root) :: ·) split
  obtain ⟨front, name, head, inner, changed, back, within, before, after⟩ := split
  obtain ⟨place, interposed, behind, entries⟩ :=
    Rule.exists_interposed_items whole front back name head within 0
  rw [← before, ← after] at interposed entries
  rw [← listed_eq_items, ← listed_eq_items] at interposed
  refine ⟨place, interposed, behind, fun change undoes => ?_⟩
  have same := entries change undoes
  rw [entries_items, entries_items] at same
  exact (List.cons.inj same).2

end Source

/-! ### Origins -/

/-- The number that a rule had before a copy of the rule with the number `entry` took the `length` numbers
from `place` on; those in the copy have the numbers of what they are copies of. -/
def origin (place length entry id : Nat) : Nat :=
  if id < place then id else if id < place + length then entry + (id - place) else id - length

/-- The number of a rule is changed back, and that of the copy to the include in whose place it stands. -/
def undo (reference : String) (place length entry : Nat) : ChildRef → ChildRef
  | .include name => .include name
  | .pattern id => if id = place then .include reference else .pattern (origin place length entry id)

theorem origin_of_lt {place length entry id : Nat} (before : id < place) :
    origin place length entry id = id := if_pos before

theorem origin_add {place length entry index : Nat} (inside : index < length) :
    origin place length entry (place + index) = entry + index := by
  unfold origin
  rw [if_neg (by omega), if_pos (by omega), Nat.add_sub_cancel_left]

theorem origin_behind {place length entry id : Nat} (behind : place ≤ id) :
    origin place length entry (id + length) = id := by
  unfold origin
  rw [if_neg (by omega), if_neg (by omega), Nat.add_sub_cancel]

theorem undoes_undo (reference : String) (place entry : Nat) {length : Nat} (positive : 0 < length) :
    Undoes reference length place (undo reference place length entry) where
  names _ := rfl
  before id before := by
    have before : id < place := before
    rw [undo, if_neg before.ne, origin_of_lt before]
  here := if_pos rfl
  behind id behind := by
    have behind : place ≤ id := behind
    have apart : (id : Nat) + length ≠ place := by omega
    rw [undo, if_neg apart, origin_behind behind]

/-- The rows of the copy are those of the rule that it is a copy of, but for their numbers. -/
theorem map_rows_copy (place number : Nat) (reference : String) (entry : Rule) :
    (Rule.rows place entry.listed).map
        (Row.renumber (undo reference place entry.listed.length number)) =
      Rule.rows number entry.listed := by
  have names : ∀ name, undo reference place entry.listed.length number (.include name) = .include name :=
    fun name => rfl
  have numbers : ∀ index < (Rule.listedAll entry.rules).length,
      undo reference place entry.listed.length number (.pattern (place + 1 + index)) =
        .pattern (number + 1 + index) := by
    intro index inside
    have inside : 1 + index < entry.listed.length := by
      rw [Rule.listed_eq, List.length_cons]
      omega
    have apart : place + (1 + index) ≠ place := by omega
    rw [Nat.add_assoc, undo, if_neg apart, origin_add inside, Nat.add_assoc]
  rw [Rule.rows_listed, Rule.rows_listed, List.map_cons,
    Rule.movable_listedAll entry.rules _ _ _ names numbers]
  exact congrArg (fun list => (entry.head.unnamed, list) :: _) (Rule.map_refs names numbers)

section Origins

variable {reference : String} {entry : Rule} {place : Nat} {listed inlined before after : List Rule}

/-- A rule that names no other one gets rows as before. -/
theorem rows_unnamed (next : Nat) (entry : Rule) :
    Rule.rows next entry.unnamed.listed = Rule.rows next entry.listed := by
  rw [Rule.rows_listed, Rule.rows_listed]
  rfl

theorem length_unnamed (entry : Rule) : entry.unnamed.listed.length = entry.listed.length := by
  rw [← Rule.length_rows 0, rows_unnamed, Rule.length_rows]

/-- **Each rule has the row of its origin**, but for the numbers. -/
theorem renumber_getElem?
    (interposed : Rule.Interposed reference entry.unnamed 0 place listed inlined)
    (split : listed = before ++ (entry.listed ++ after)) (id : Nat) :
    (Rule.rows 0 inlined)[id]?.map
        (Row.renumber (undo reference place entry.listed.length before.length)) =
      (Rule.rows 0 listed)[origin place entry.listed.length before.length id]? := by
  have undoes := undoes_undo reference place before.length entry.listed_pos
  obtain ⟨front, back, rfl, made, -, changed⟩ := interposed
  rw [rows_unnamed] at made
  rw [length_unnamed, Nat.zero_add] at changed
  rw [Nat.zero_add] at undoes made ⊢
  have old := changed _ undoes
  have length : (Rule.rows front.length entry.listed).length = entry.listed.length :=
    Rule.length_rows _ _
  -- The number is that of a rule before the copy, in it or behind it.
  rcases lt_or_ge id front.length with inFront | behind
  · rw [origin_of_lt inFront, old, made, List.getElem?_append_left inFront, List.map_append,
      List.getElem?_append_left (by rwa [List.length_map]), List.getElem?_map]
  · obtain ⟨index, rfl⟩ := Nat.exists_eq_add_of_le behind
    rw [made, List.getElem?_append_right behind, Nat.add_sub_cancel_left]
    rcases lt_or_ge index entry.listed.length with inCopy | behind
    · have block := congrArg (·[index]?) (map_rows_copy front.length before.length reference entry)
      rw [origin_add inCopy, List.getElem?_append_left (by rwa [length]), ← List.getElem?_map]
      rw [split, Rule.rows_append, Rule.rows_append, List.getElem?_append_right, Rule.length_rows,
        Nat.add_sub_cancel_left, List.getElem?_append_left, Nat.zero_add]
      · exact block
      · rwa [Rule.length_rows]
      · rw [Rule.length_rows]
        exact Nat.le_add_right _ _
    · obtain ⟨further, rfl⟩ := Nat.exists_eq_add_of_le behind
      have shift : front.length + (entry.listed.length + further) =
          front.length + further + entry.listed.length := by omega
      rw [shift, origin_behind (Nat.le_add_right _ _), old,
        List.getElem?_append_right (by rw [length]; exact behind), length, Nat.add_sub_cancel_left,
        List.map_append, List.getElem?_append_right (by rw [List.length_map]; exact Nat.le_add_right _ _),
        List.length_map, Nat.add_sub_cancel_left, List.getElem?_map]

/-- Nothing of what rules say of themselves is lost. -/
theorem heads_sublist {copy : Rule}
    (interposed : Rule.Interposed reference copy 0 place listed inlined) :
    (listed.map (·.head.unnamed)).Sublist (inlined.map (·.head.unnamed)) := by
  have undoes := undoes_undo reference place 0 copy.listed_pos
  obtain ⟨front, back, rfl, made, -, changed⟩ := interposed
  rw [← Rule.map_fst_rows 0 listed, ← Rule.map_fst_rows 0 inlined, made, changed _ undoes, List.map_map]
  refine List.Sublist.map Prod.fst ?_
  exact (List.Sublist.refl front).append (List.sublist_append_right _ back)

end Origins

/-- What is listed under numbers that are changed back is listed under the numbers of the origins. -/
theorem map_origin_of_undo {place length entry : Nat} {reference : String}
    {known others : List (String × PatternId)}
    (same : known.map (fun known => (known.1, undo reference place length entry (.pattern known.2))) =
      others.map fun known => (known.1, .pattern known.2)) :
    known.map (fun known => (known.1, origin place length entry known.2)) = others := by
  induction known generalizing others with
  | nil => exact (List.map_eq_nil_iff.mp same.symm).symm
  | cons first rest ih =>
    cases others with
    | nil => cases same
    | cons other others =>
      obtain ⟨head, behind⟩ := List.cons.inj same
      obtain ⟨name, number⟩ := Prod.mk.inj head
      rw [undo] at number
      split at number
      · cases number
      · rw [List.map_cons, ih behind, ChildRef.pattern.inj number, name]

/-- What is found by its name is found there with its origin. -/
theorem find?_map_origin {change : PatternId → PatternId} (named : String → Bool)
    (known : List (String × PatternId)) :
    ((known.map fun known => (known.1, change known.2)).find? fun known => named known.1).map (·.2) =
      ((known.find? fun known => named known.1).map (·.2)).map change := by
  rw [List.find?_map, Option.map_map, Option.map_map]
  rfl

/-- The entry that is found by its name is found there by its number. -/
theorem split_of_find? (named : String → Bool) (front : List Rule) {items : List (String × Rule)}
    {entry : Rule} (means : (items.find? fun item => named item.1).map (·.2) = some entry) :
    ∃ before after,
      front ++ (items.flatMap fun item => item.2.listed) = before ++ (entry.listed ++ after) ∧
        ((Rule.entries front.length items).find? fun known => named known.1).map (·.2) =
          some before.length := by
  induction items generalizing front with
  | nil => cases means
  | cons item rest ih =>
    rw [List.flatMap_cons, Rule.entries, List.find?_cons]
    rw [List.find?_cons] at means
    cases here : named item.1 with
    | true =>
      rw [here] at means
      cases means
      exact ⟨front, _, rfl, rfl⟩
    | false =>
      rw [here] at means
      obtain ⟨before, after, split, number⟩ := ih (front ++ item.2.listed) means
      rw [List.length_append] at number
      exact ⟨before, after, List.append_assoc _ _ _ ▸ split, number⟩

namespace Source

/-- A name means the number of the rule of its entry. -/
theorem split_of_entry? {source : Source} {reference : String} {entry : Rule}
    (means : source.entry? reference = some entry) :
    ∃ before after, source.listed = before ++ (entry.listed ++ after) ∧
      source.resolve? reference = some before.length := by
  obtain ⟨before, after, split, number⟩ :=
    split_of_find? (fun name => reference == "#" ++ name) source.root.listed means
  refine ⟨before, after, split, ?_⟩
  obtain ⟨item, isItem, -⟩ := Option.map_eq_some_iff.mp means
  have named : (reference == "#" ++ item.1) = true :=
    List.find?_some (p := fun item : String × Rule => reference == "#" ++ item.1) isItem
  have own : ¬ (reference = "$self" ∨ reference = "$base") := by
    rw [beq_iff_eq.mp named, ← String.toList_inj, ← String.toList_inj, String.toList_append]
    rintro (same | same) <;> cases (List.cons.inj same).1
  unfold resolve?
  rw [if_neg own]
  exact number

/-- The rules of one source are copies of those of another one, and list copies of what those list once
their numbers are changed back. -/
structure Replaces (origin : PatternId → PatternId) (change : ChildRef → ChildRef)
    (inlined source : Source) : Prop where
  root : origin rootPattern = rootPattern
  maxExtend : inlined.maxExtend = source.maxExtend
  /-- Nothing of what rules say of themselves is lost. -/
  heads_sublist : (source.listed.map (·.head.unnamed)).Sublist (inlined.listed.map (·.head.unnamed))
  /-- There is a copy of every rule. -/
  onto : ∀ id < source.listed.length, ∃ copy < inlined.listed.length, origin copy = id
  names : ∀ name, change (.include name) = .include name
  rows : ∀ id : Nat, (Rule.rows 0 inlined.listed)[id]?.map (Row.renumber change) =
    (Rule.rows 0 source.listed)[origin id]?
  targets : ∀ ref, source.target? (change ref) = (inlined.target? ref).map origin

/-- What a rule lists is what is in its row. -/
theorem children_eq (source : Source) (id : PatternId) : source.outline.children id =
    ((Rule.rows 0 source.listed)[id]?.map fun row => row.2.filterMap source.target?).getD [] := by
  rw [Rule.getElem?_rows, Option.map_map]
  rfl

/-- The names in includes are those in the rows. -/
theorem exists_row_iff {source : Source} {name : String} :
    (∃ rule ∈ source.listed, ∃ inner ∈ rule.rules, inner.head.reference = some name) ↔
      ∃ id : Nat, ∃ row, (Rule.rows 0 source.listed)[id]? = some row ∧ .include name ∈ row.2 := by
  constructor
  · rintro ⟨rule, isListed, inner, isInner, reference⟩
    obtain ⟨id, here⟩ := List.mem_iff_getElem?.mp isListed
    refine ⟨id, (rule.head.unnamed, Rule.refs (id + 1) rule.rules), ?_,
      Rule.mem_refs_include.mpr ⟨inner, isInner, reference⟩⟩
    rw [Rule.getElem?_rows, here]
    rfl
  · rintro ⟨id, row, here, member⟩
    rw [Rule.getElem?_rows] at here
    obtain ⟨rule, there, rfl⟩ := Option.map_eq_some_iff.mp here
    exact ⟨rule, List.mem_of_getElem? there, Rule.mem_refs_include.mp member⟩

namespace Replaces

variable {source inlined : Source} {origin : PatternId → PatternId} {change : ChildRef → ChildRef}
  (replaces : Replaces origin change inlined source)
include replaces

/-- A rule says what its origin says. -/
theorem heads (id : Nat) : inlined.listed[id]?.map (·.head.unnamed) =
    source.listed[origin id]?.map (·.head.unnamed) := by
  have row := congrArg (Option.map Prod.fst) (replaces.rows id)
  rw [Rule.getElem?_rows, Rule.getElem?_rows, Option.map_map, Option.map_map, Option.map_map] at row
  exact row

/-- A rule is a copy of the one with the number of its origin. -/
theorem exists_original {id : Nat} {copy : Rule} (here : inlined.listed[id]? = some copy) :
    ∃ rule, source.listed[origin id]? = some rule ∧ copy.head.unnamed = rule.head.unnamed := by
  have same := replaces.heads id
  rw [here, Option.map_some] at same
  obtain ⟨rule, there, alike⟩ := Option.map_eq_some_iff.mp same.symm
  exact ⟨rule, there, alike.symm⟩

theorem exists_copy {id : Nat} {rule : Rule} (here : source.listed[origin id]? = some rule) :
    ∃ copy, inlined.listed[id]? = some copy ∧ copy.head.unnamed = rule.head.unnamed := by
  have same := replaces.heads id
  rw [here, Option.map_some] at same
  exact Option.map_eq_some_iff.mp same

/-- **A rule lists copies of what its origin lists.** -/
theorem covers : Outline.Covers origin inlined.outline source.outline where
  children id := by
    rw [children_eq, children_eq, ← replaces.rows id]
    cases (Rule.rows 0 inlined.listed)[id]? with
    | none => rfl
    | some row =>
      show (row.2.filterMap inlined.target?).map origin = (row.2.map change).filterMap source.target?
      rw [List.map_filterMap, List.filterMap_map]
      exact List.filterMap_congr fun ref _ => (replaces.targets ref).symm
  isContainer id := by
    have kind := congrArg (fun head => (head.map Head.isContainer).getD true) (replaces.heads id)
    simp only [Option.map_map] at kind
    exact kind

/-- The same names dangle. -/
theorem dangling_iff {name : String} : inlined.Dangling name ↔ source.Dangling name := by
  have means : source.resolve? name = (inlined.resolve? name).map origin := by
    have target := replaces.targets (.include name)
    rwa [replaces.names name] at target
  constructor
  · rintro ⟨written, unknown⟩
    obtain ⟨id, row, here, member⟩ := exists_row_iff.mp written
    have there := replaces.rows id
    rw [here] at there
    refine ⟨exists_row_iff.mpr ⟨origin id, _, there.symm, ?_⟩, resolve?_eq_none_iff.mp ?_⟩
    · exact List.mem_map.mpr ⟨.include name, member, replaces.names name⟩
    · rw [means, resolve?_eq_none_iff.mpr unknown]
      rfl
  · rintro ⟨written, unknown⟩
    have missing := resolve?_eq_none_iff.mpr unknown
    obtain ⟨id, row, here, member⟩ := exists_row_iff.mp written
    have inside := (List.getElem?_eq_some_iff.mp here).1
    rw [Rule.length_rows] at inside
    obtain ⟨copy, -, rfl⟩ := replaces.onto id inside
    rw [← replaces.rows copy] at here
    obtain ⟨own, there, rfl⟩ := Option.map_eq_some_iff.mp here
    obtain ⟨ref, isRef, same⟩ := List.mem_map.mp member
    refine ⟨exists_row_iff.mpr ⟨copy, own, there, ?_⟩, resolve?_eq_none_iff.mp ?_⟩
    · cases ref with
      | «include» other =>
        rw [replaces.names] at same
        exact same ▸ isRef
      | pattern number =>
        -- The number would stand for an include with a name that means a rule.
        have target := replaces.targets (.pattern number)
        rw [same] at target
        cases missing.symm.trans target
    · rw [missing] at means
      exact Option.map_eq_none_iff.mp means.symm

end Replaces

variable {source inlined : Source} {reference : String} {entry : Rule}

theorem maxExtend_of_inlines {copy : Rule} (inlines : source.Inlines reference copy inlined) :
    inlined.maxExtend = source.maxExtend := by
  cases inlines <;> rfl

/-- **With the rule of an entry in place of an include of it, all rules are copies of what they have
been.** -/
theorem exists_replaces (means : source.entry? reference = some entry)
    (inlines : source.Inlines reference entry.unnamed inlined) :
    ∃ place number, source.resolve? reference = some number ∧
      Replaces (origin place entry.listed.length number) (undo reference place entry.listed.length number)
        inlined source := by
  obtain ⟨place, interposed, positive, entries⟩ := exists_interposed rfl inlines
  obtain ⟨before, after, split, number⟩ := split_of_entry? means
  have undoes := undoes_undo reference place before.length entry.listed_pos
  obtain ⟨-, most, length⟩ := interposed.bounds
  rw [length_unnamed] at length entries
  refine ⟨place, before.length, number, ⟨origin_of_lt positive, maxExtend_of_inlines inlines,
    heads_sublist interposed, fun id inside => ?_, undoes.names,
    renumber_getElem? interposed split, fun ref => ?_⟩⟩
  · rcases lt_or_ge id place with front | behind
    · exact ⟨id, by omega, origin_of_lt front⟩
    · exact ⟨id + entry.listed.length, by omega, origin_behind behind⟩
  · cases ref with
    | pattern id =>
      rw [undo]
      split
      · rename_i here
        have first : origin place entry.listed.length before.length (place + 0) = before.length + 0 :=
          origin_add entry.listed_pos
        rw [here]
        exact number.trans (congrArg some first.symm)
      · rfl
    | «include» name =>
      show source.resolve? name = (inlined.resolve? name).map _
      unfold resolve?
      split
      · exact congrArg some (origin_of_lt positive).symm
      · rw [← map_origin_of_undo (entries _ undoes)]
        exact find?_map_origin (fun other => name == "#" ++ other) _

end Source

end Highlight.Grammar
