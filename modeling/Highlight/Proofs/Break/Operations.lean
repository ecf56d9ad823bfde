/-
**Every sequence of operations leaves an index that behaves as a list of breaks.**

An index is used through six operations: a break is stored after another one, a range or a tail of
breaks is deleted, breaks are shifted, a scan stores its break in the place of those it has passed,
and the index is cleared. Each of them does to the list of the breaks what it says, and the links,
the slots and the sizes always go together:

* `BreakIndex.Operation.onList`: what an operation does to a list of breaks with their slots;
* `BreakIndex.Intact`: the links, the free slots and the sizes of an index fit the list of its breaks;
* `BreakIndex.Lists.apply_ends`: one operation, which is refused just where the list would get out of
  order or lose the break at the start;
* `BreakIndex.Grows`: an operation makes a new slot only where there is no free one;
* `BreakIndex.Reaches.refines_list`: **after every sequence of operations the index is intact, and
  the next operation does to it what it does to the list**.
-/

import Mathlib.Data.List.Chain
import Highlight.Proofs.Break.Change

namespace Highlight.BreakIndex

/-! ### Operations -/

/-- The operations that change an index. -/
inductive Operation where
  | insertAfter (after : BreakId) (value : Break)
  | deleteRange (start : BreakId) (stop : Option BreakId)
  | truncateAfter (id : BreakId)
  | shiftFrom (id : BreakId) (distance : Int)
  | setBreak (after : BreakId) (value : Break) (allowFixedPoint : Bool)
  | clear

/-- The answer of an operation, if it gives one, and the index after it. -/
def Operation.apply (index : BreakIndex) :
    Operation → Except Fault (Option SetBreak × BreakIndex)
  | insertAfter after value => do
    let (id, other) ← index.insertAfter after value
    return (some (.inserted id), other)
  | deleteRange start stop => do return (none, ← index.deleteRange start stop)
  | truncateAfter id => do return (none, ← index.truncateAfter id)
  | shiftFrom id distance => do return (none, ← index.shiftFrom id distance)
  | setBreak after value allowFixedPoint => do
    let (result, other) ← index.setBreak after value allowFixedPoint
    return (some result, other)
  | clear => return (none, initial)

/-! ### Lists of breaks -/

/-- The breaks in front of the one in a slot. -/
def inFront (id : BreakId) (entries : List Entry) : List Entry :=
  entries.takeWhile fun entry => entry.1 != id

/-- The break in a slot and all behind it. -/
def fromOn (id : BreakId) (entries : List Entry) : List Entry :=
  entries.dropWhile fun entry => entry.1 != id

/-- The breaks up to the one in a slot, with that one. -/
def upTo (id : BreakId) (entries : List Entry) : List Entry :=
  inFront id entries ++ (fromOn id entries).take 1

/-- The breaks behind the one in a slot. -/
def behind (id : BreakId) (entries : List Entry) : List Entry := (fromOn id entries).tail

/-- What is left of some breaks once those are gone that a scan has passed where it stores a break:
they are not behind it, and none of them is that break. -/
def unpassed (value : Break) (entries : List Entry) : List Entry :=
  entries.dropWhile fun entry => entry.2.position ≤ value.position && entry.2 ≠ value

/-- The slot of the first of some breaks, if it is a certain break. -/
def same? (value : Break) (entries : List Entry) : Option BreakId :=
  (entries.head?.filter fun entry => entry.2 = value).map Prod.fst

/-- What a list becomes where the break that a scan has come to is stored after the one in a slot: the
same break is kept with all that follow it, or else it is a new one in the slot `fresh`. -/
def storeAfter (fresh after : BreakId) (value : Break) (allowFixedPoint : Bool)
    (entries : List Entry) : SetBreak × List Entry :=
  let rest := unpassed value (behind after entries)
  match same? value rest with
  | some id =>
    (if allowFixedPoint then .fixedPoint id else .reused id, upTo after entries ++ rest)
  | none => (.inserted fresh, upTo after entries ++ (fresh, value) :: rest)

/-- What an operation does to a list of breaks, and what it answers. A new break is stored in the
slot `fresh`. -/
def Operation.onList (fresh : BreakId) (entries : List Entry) :
    Operation → Option SetBreak × List Entry
  | insertAfter after value =>
    (some (.inserted fresh), upTo after entries ++ (fresh, value) :: behind after entries)
  | deleteRange start stop =>
    (none, inFront start entries ++ (stop.map fun stop => fromOn stop entries).getD [])
  | truncateAfter id => (none, upTo id entries)
  | shiftFrom id distance =>
    (none, inFront id entries ++ (fromOn id entries).map (moveEntry distance))
  | setBreak after value allowFixedPoint =>
    (storeAfter fresh after value allowFixedPoint entries).map some id
  | clear => (none, [(first, Break.first)])

/-- The operations that an index is meant for: those on slots with breaks, with positions that are
sizes, where there is room for a break more, where a range does not end before it starts, and where a
shift neither moves the break at the start nor moves a break before the one in front of it. -/
def Operation.Allowed (index : BreakIndex) : Operation → Prop
  | insertAfter after value =>
    index.contains after ∧ value.position ≤ maxSize ∧ index.HasRoom
  | deleteRange start stop =>
    index.contains start ∧ ∀ id ∈ stop, id ∈ (fromOn start index.toList).map Prod.fst
  | truncateAfter id => index.contains id
  | shiftFrom id distance =>
    index.contains id ∧ (id = first → shifted 0 distance = 0) ∧
      ∀ before ∈ (inFront id index.toList).getLast?, ∀ moved ∈ (fromOn id index.toList).head?,
        before.2.position ≤ shifted moved.2.position distance
  | setBreak after value _ =>
    index.contains after ∧ value.position ≤ maxSize ∧
      ((∀ entry ∈ (behind after index.toList).head?, value.position < entry.2.position) →
        index.HasRoom)
  | clear => True

instance (index : BreakIndex) : DecidablePred (Operation.Allowed index)
  | .insertAfter _ _ => inferInstanceAs (Decidable (_ ∧ _))
  | .deleteRange _ _ => inferInstanceAs (Decidable (_ ∧ _))
  | .truncateAfter _ => inferInstanceAs (Decidable (_ = true))
  | .shiftFrom _ _ => inferInstanceAs (Decidable (_ ∧ _))
  | .setBreak _ _ _ => inferInstanceAs (Decidable (_ ∧ _))
  | .clear => inferInstanceAs (Decidable True)

/-- An index that a sequence of operations leads to from the one with the break at the start of the
text alone. -/
inductive Reaches : List Operation → BreakIndex → Prop
  | initial : Reaches [] initial
  | apply {operations : List Operation} {index other : BreakIndex} {operation : Operation}
      {answer : Option SetBreak} (reached : Reaches operations index)
      (allowed : operation.Allowed index) (went : operation.apply index = .ok (answer, other)) :
      Reaches (operations ++ [operation]) other

/-! ### Intact indices -/

/-- The slots of the breaks in the order of the links. -/
def ids (index : BreakIndex) : List BreakId := index.toList.map Prod.fst

/-- The slots that hold a break. -/
def liveSlots (index : BreakIndex) : List BreakId :=
  (List.range index.nodes.size).filter fun id => index.contains id

/-- The slots that hold none. -/
def emptySlots (index : BreakIndex) : List BreakId :=
  (List.range index.nodes.size).filter fun id => !index.contains id

/-- A list of breaks begins with the one at the start of the text and is in order. -/
structure Proper (entries : List Entry) : Prop where
  starts : entries.head? = some (first, Break.first)
  ordered : Ordered entries
  small : ∀ entry ∈ entries, entry.2.position ≤ maxSize

/-- An index holds the breaks of such a list. -/
structure Lists (index : BreakIndex) (entries : List Entry) : Prop extends Proper entries where
  holds : index.Holds entries

theorem lists_initial : initial.Lists [(first, Break.first)] where
  holds := holds_initial
  starts := rfl
  ordered := List.pairwise_singleton _ _
  small := fun entry member => by
    rw [List.mem_singleton.mp member]
    exact Nat.zero_le _

namespace Holds

variable {index : BreakIndex} {entries : List Entry} {id other : BreakId}

/-- The breaks are in the slots that hold one. -/
theorem perm_liveSlots (holds : index.Holds entries) :
    (entries.map Prod.fst).Perm index.liveSlots := by
  refine (List.perm_ext_iff_of_nodup holds.nodup (List.nodup_range.filter _)).mpr fun id => ?_
  rw [holds.mem_ids_iff, List.mem_filter, List.mem_range]
  refine ⟨fun live => ⟨?_, live⟩, And.right⟩
  obtain ⟨node, here⟩ := Option.isSome_iff_exists.mp live
  exact lt_size_of_node? here

/-- The free slots are those that hold none. -/
theorem perm_emptySlots (holds : index.Holds entries) : index.free.Perm index.emptySlots := by
  refine (List.perm_ext_iff_of_nodup holds.freeNodup (List.nodup_range.filter _)).mpr fun id => ?_
  rw [holds.free id, List.mem_filter, List.mem_range, contains, Bool.not_eq_true',
    Option.isSome_eq_false_iff, Option.isNone_iff_eq_none]

/-- Every slot has a break or is free. -/
theorem length_add_free (holds : index.Holds entries) :
    entries.length + index.free.length = index.nodes.size := by
  have live := holds.perm_liveSlots.length_eq
  rw [List.length_map] at live
  rw [live, holds.perm_emptySlots.length_eq]
  exact (List.length_eq_length_filter_add _).symm.trans List.length_range

/-- A break is not stored before the one that it is stored after, nor behind the next one. -/
theorem insertAfter_refused {front back : List Entry} {anchor value : Break}
    (holds : index.Holds (front ++ (id, anchor) :: back))
    (unordered : ¬ (anchor.position ≤ value.position ∧
      ∀ entry ∈ back.head?, value.position ≤ entry.2.position)) :
    index.insertAfter id value = .error .breakOrder := by
  unfold insertAfter
  rw [holds.next_eq, holds.position_eq]
  simp only [Fault.ok_bind]
  by_cases near : value.position < anchor.position
  · rw [if_pos near]
    rfl
  · rw [if_neg near]
    cases back with
    | nil => exact absurd ⟨not_lt.mp near, fun _ member => nomatch member⟩ unordered
    | cons entry back =>
      rw [List.append_cons] at holds
      have far : entry.2.position < value.position := by
        by_contra far
        refine unordered ⟨not_lt.mp near, fun other member => ?_⟩
        cases member
        exact not_lt.mp far
      rw [firstId_cons]
      simp only [holds.position_eq, Fault.ok_bind, if_pos far]
      rfl

end Holds

namespace Lists

variable {index : BreakIndex} {entries : List Entry}

theorem toList (lists : index.Lists entries) : index.Lists index.toList := by
  rw [lists.holds.toList_eq]
  exact lists

end Lists

/-! ### The parts of a list -/

section Parts

variable {front back : List Entry} {id : BreakId} {value : Break}

theorem inFront_eq (unlike : ∀ entry ∈ front, entry.1 ≠ id) :
    inFront id (front ++ (id, value) :: back) = front := by
  unfold inFront
  rw [List.takeWhile_append_of_pos fun entry member => bne_iff_ne.mpr (unlike entry member)]
  simp

theorem fromOn_eq (unlike : ∀ entry ∈ front, entry.1 ≠ id) :
    fromOn id (front ++ (id, value) :: back) = (id, value) :: back := by
  unfold fromOn
  rw [List.dropWhile_append_of_pos fun entry member => bne_iff_ne.mpr (unlike entry member)]
  simp

theorem upTo_eq (unlike : ∀ entry ∈ front, entry.1 ≠ id) :
    upTo id (front ++ (id, value) :: back) = front ++ [(id, value)] := by
  unfold upTo
  rw [inFront_eq unlike, fromOn_eq unlike]
  rfl

theorem behind_eq (unlike : ∀ entry ∈ front, entry.1 ≠ id) :
    behind id (front ++ (id, value) :: back) = back := by
  unfold behind
  rw [fromOn_eq unlike]
  rfl

/-- The breaks a scan has passed are gone if the next one is behind it or the same. -/
theorem unpassed_eq {passed rest : List Entry}
    (gone : ∀ entry ∈ passed, entry.2.position ≤ value.position ∧ entry.2 ≠ value)
    (stays : ∀ entry ∈ rest.head?, value.position < entry.2.position ∨ entry.2 = value) :
    unpassed value (passed ++ rest) = rest := by
  unfold unpassed
  rw [List.dropWhile_append_of_pos fun entry member => by simpa using gone entry member]
  cases rest with
  | nil => rfl
  | cons entry rest =>
    rw [List.dropWhile_cons_of_neg]
    have here := stays entry rfl
    simp only [Bool.and_eq_true, decide_eq_true_eq, not_and, not_not]
    exact fun passes => here.resolve_left (not_lt.mpr passes)

theorem storeAfter_same {passed rest : List Entry} {fresh kept : BreakId} {anchor : Break}
    (allow : Bool) (unlike : ∀ entry ∈ front, entry.1 ≠ id)
    (gone : ∀ entry ∈ passed, entry.2.position ≤ value.position ∧ entry.2 ≠ value) :
    storeAfter fresh id value allow (front ++ (id, anchor) :: (passed ++ (kept, value) :: rest)) =
      (if allow then .fixedPoint kept else .reused kept,
        front ++ (id, anchor) :: (kept, value) :: rest) := by
  unfold storeAfter
  rw [upTo_eq unlike, behind_eq unlike, unpassed_eq gone fun entry head => by
    cases head
    exact Or.inr rfl]
  have met : same? value ((kept, value) :: rest) = some kept := by
    unfold same?
    rw [List.head?_cons, Option.filter_some, if_pos (decide_eq_true rfl)]
    rfl
  simp [met]

theorem storeAfter_new {passed rest : List Entry} {fresh : BreakId} {anchor : Break}
    (allow : Bool) (unlike : ∀ entry ∈ front, entry.1 ≠ id)
    (gone : ∀ entry ∈ passed, entry.2.position ≤ value.position ∧ entry.2 ≠ value)
    (ahead : ∀ entry ∈ rest.head?, value.position < entry.2.position) :
    storeAfter fresh id value allow (front ++ (id, anchor) :: (passed ++ rest)) =
      (.inserted fresh, front ++ (id, anchor) :: (fresh, value) :: rest) := by
  have unmet : same? value rest = none := by
    unfold same?
    cases rest with
    | nil => rfl
    | cons entry rest =>
      have unlike : entry.2 ≠ value := fun same =>
        (ahead entry rfl).ne (congrArg Break.position same).symm
      simp [unlike]
  unfold storeAfter
  rw [upTo_eq unlike, behind_eq unlike, unpassed_eq gone fun entry head => Or.inl (ahead entry head)]
  simp [unmet]

theorem ordered_iff_isChain {entries : List Entry} : Ordered entries ↔
    entries.IsChain fun entry other => entry.2.position ≤ other.2.position :=
  haveI : Trans (fun entry other : Entry => entry.2.position ≤ other.2.position)
      (fun entry other : Entry => entry.2.position ≤ other.2.position)
      (fun entry other : Entry => entry.2.position ≤ other.2.position) := ⟨le_trans⟩
  List.isChain_iff_pairwise.symm

/-- A new break keeps a list in order if it is not before the break it is stored after and not
behind the next one. -/
theorem ordered_insert_iff {fresh : BreakId} {anchor : Break}
    (ordered : Ordered (front ++ (id, anchor) :: back)) :
    Ordered (front ++ (id, anchor) :: (fresh, value) :: back) ↔
      anchor.position ≤ value.position ∧ ∀ entry ∈ back.head?, value.position ≤ entry.2.position := by
  rw [ordered_iff_isChain, List.isChain_split, List.isChain_cons] at ordered ⊢
  rw [List.isChain_cons]
  obtain ⟨inFront, -, inBack⟩ := ordered
  constructor
  · rintro ⟨-, near, far, -⟩
    exact ⟨near _ rfl, far⟩
  · rintro ⟨near, far⟩
    refine ⟨inFront, fun entry member => ?_, far, inBack⟩
    cases member
    exact near

theorem shifted_mono {position other : Nat} (distance : Int) (before : position ≤ other) :
    shifted position distance ≤ shifted other distance := by
  unfold shifted
  omega

theorem shifted_le (position : Nat) (distance : Int) : shifted position distance ≤ maxSize :=
  min_le_right _ _

theorem Ordered.map_moveEntry {entries : List Entry} (ordered : Ordered entries) (distance : Int) :
    Ordered (entries.map (moveEntry distance)) :=
  List.pairwise_map.mpr (ordered.imp fun before => shifted_mono distance before)

end Parts

/-! ### The operations on intact indices -/

/-- The list of an operation is refused: a break would be out of order in it, or the break at the
start would be gone. -/
def Refuses (after : List Entry) (fault : Fault) : Prop :=
  (fault = .breakOrder ∧ ¬ Ordered after) ∨
    (fault = .firstBreakDeleted ∧ first ∉ after.map Prod.fst)

namespace Proper

variable {front back : List Entry} {id fresh : BreakId} {value anchor : Break}

/-- Some of the breaks, with the one at the start, are in order like all of them. -/
theorem sublist {entries some : List Entry} (proper : Proper entries)
    (starts : some.head? = entries.head?) (within : some.Sublist entries) : Proper some :=
  ⟨starts.trans proper.starts, proper.ordered.sublist within,
    fun entry member => proper.small entry (within.subset member)⟩

/-- A break more, at a position that is a size, leaves such a list if it is in order. -/
theorem insert (proper : Proper (front ++ (id, anchor) :: back))
    (inOrder : anchor.position ≤ value.position ∧
      ∀ entry ∈ back.head?, value.position ≤ entry.2.position)
    (small : value.position ≤ maxSize) :
    Proper (front ++ (id, anchor) :: (fresh, value) :: back) := by
  refine ⟨?_, (ordered_insert_iff proper.ordered).mpr inOrder, ?_⟩
  · rw [← proper.starts]
    cases front <;> rfl
  · intro entry member
    rw [List.append_cons, List.mem_append, List.mem_cons] at member
    rcases member with inFront | rfl | inBack
    · exact proper.small entry (List.append_cons .. ▸ List.mem_append_left back inFront)
    · exact small
    · exact proper.small entry (List.mem_append_right _ (List.mem_cons_of_mem _ inBack))

end Proper

namespace Lists

variable {index : BreakIndex} {front middle back : List Entry} {id : BreakId} {value anchor : Break}

theorem insertAfter_ends (lists : index.Lists (front ++ (id, anchor) :: back))
    (room : index.HasRoom) (small : value.position ≤ maxSize) :
    Fault.Ends
      (fun fault => ∀ fresh, Refuses (front ++ (id, anchor) :: (fresh, value) :: back) fault)
      (fun outcome => outcome.2.Lists (front ++ (id, anchor) :: (outcome.1, value) :: back))
      (index.insertAfter id value) := by
  by_cases inOrder :
      anchor.position ≤ value.position ∧ ∀ entry ∈ back.head?, value.position ≤ entry.2.position
  · obtain ⟨fresh, other, inserted, holds⟩ := lists.holds.insertAfter_spec room inOrder.1 inOrder.2
    rw [inserted]
    exact ⟨lists.insert inOrder small, holds⟩
  · rw [lists.holds.insertAfter_refused inOrder]
    exact fun fresh => Or.inl ⟨rfl, fun ordered =>
      inOrder ((ordered_insert_iff lists.ordered).mp ordered)⟩

theorem deleteRange_ends (lists : index.Lists (front ++ ((id, value) :: middle ++ back))) :
    Fault.Ends (Refuses (front ++ back)) (fun other => other.Lists (front ++ back))
      (index.deleteRange id (firstId back none)) := by
  cases front with
  | nil =>
    have holds := lists.holds
    have atStart : id = first := congrArg Prod.fst (Option.some_inj.mp lists.starts)
    have unlike : some id ≠ firstId back none := by
      intro same
      cases back with
      | nil => cases same
      | cons entry back =>
        exact holds.apart.2.1 entry (by simp) (Option.some_inj.mp same).symm
    have refused : index.deleteRange id (firstId back none) = .error .firstBreakDeleted := by
      unfold deleteRange
      rw [deleteFrom, if_neg unlike, holds.next_eq, atStart]
      rfl
    rw [refused]
    refine Or.inr ⟨rfl, fun member => ?_⟩
    obtain ⟨entry, inBack, same⟩ := List.mem_map.mp member
    exact holds.apart.2.1 entry (List.mem_append_right _ inBack) (same.trans atStart.symm)
  | cons entry front =>
    obtain ⟨other, deleted, holds⟩ := lists.holds.deleteRange_spec (List.cons_ne_nil _ _)
    rw [deleted]
    exact ⟨lists.sublist rfl ((List.Sublist.refl _).append (List.sublist_append_right _ _)), holds⟩

theorem truncateAfter_ends (lists : index.Lists (front ++ (id, value) :: back)) :
    ∃ other, index.truncateAfter id = .ok other ∧ other.Lists (front ++ [(id, value)]) := by
  obtain ⟨other, truncated, holds⟩ := lists.holds.truncateAfter_spec
  refine ⟨other, truncated, lists.sublist ?_ ?_, holds⟩
  · cases front <;> rfl
  · exact (List.Sublist.refl _).append (List.Sublist.cons_cons _ (List.nil_sublist _))

theorem shiftFrom_ends {distance : Int} (lists : index.Lists (front ++ (id, value) :: back))
    (stays : id = first → shifted 0 distance = 0)
    (behind : ∀ before ∈ front.getLast?, before.2.position ≤ shifted value.position distance) :
    ∃ other, index.shiftFrom id distance = .ok other ∧
      other.Lists (front ++ ((id, value) :: back).map (moveEntry distance)) := by
  have within : ∀ entry ∈ (id, value) :: back, entry ∈ front ++ (id, value) :: back :=
    fun entry member => List.mem_append_right _ member
  obtain ⟨other, went, holds⟩ := lists.holds.shiftFrom_spec distance
    fun entry member => lists.small entry (within entry member)
  refine ⟨other, went, ⟨?_, ?_, ?_⟩, holds⟩
  · have starts := lists.starts
    cases front with
    | nil =>
      cases Option.some_inj.mp starts
      rw [List.nil_append, List.map_cons, List.head?_cons, moveEntry]
      show some (first, ({ Break.first with position := shifted 0 distance } : Break)) = _
      rw [stays rfl]
      rfl
    | cons entry front => exact starts
  · have inFront := lists.ordered
    rw [ordered_iff_isChain, List.isChain_append] at inFront ⊢
    refine ⟨inFront.1, ordered_iff_isChain.mp ?_, fun before last moved head => ?_⟩
    · exact Ordered.map_moveEntry (ordered_iff_isChain.mpr inFront.2.1) distance
    · cases head
      exact behind before last
  · intro entry member
    rcases List.mem_append.mp member with inFront | moved
    · exact lists.small entry (List.mem_append_left _ inFront)
    · obtain ⟨old, -, rfl⟩ := List.mem_map.mp moved
      exact shifted_le _ _

/-- A scan does not store a break before the one that it stores it after. -/
theorem setBreak_refused {allow : Bool} (lists : index.Lists (front ++ (id, anchor) :: back))
    (near : value.position < anchor.position) :
    index.setBreak id value allow = .error .breakOrder := by
  have holds := lists.holds
  have refused : setFrom.insert id value index = .error .breakOrder := by
    unfold setFrom.insert insertAfter
    rw [holds.next_eq, holds.position_eq]
    simp only [Fault.ok_bind, if_pos near]
    rfl
  unfold setBreak
  rw [holds.next_eq]
  cases back with
  | nil => exact refused
  | cons entry back =>
    have ahead := near.trans_le (lists.ordered.behind entry List.mem_cons_self)
    rw [List.append_cons] at holds
    rw [firstId_cons, Fault.ok_bind, setFrom, holds.get_eq, Fault.ok_bind, if_pos ahead, refused]

theorem setBreak_ends {allow : Bool} (lists : index.Lists (front ++ (id, anchor) :: back))
    (room : (∀ entry ∈ back.head?, value.position < entry.2.position) → index.HasRoom)
    (small : value.position ≤ maxSize) :
    Fault.Ends
      (fun fault => ∀ fresh,
        Refuses (storeAfter fresh id value allow (front ++ (id, anchor) :: back)).2 fault)
      (fun outcome => ∃ fresh entries,
        storeAfter fresh id value allow (front ++ (id, anchor) :: back) = (outcome.1, entries) ∧
          outcome.2.Lists entries)
      (index.setBreak id value allow) := by
  have unlike := lists.holds.apart.1
  by_cases near : anchor.position ≤ value.position
  · obtain ⟨passed, rest, result, other, rfl, gone, went, outcome⟩ :=
      lists.holds.setBreak_spec allow room near
    have left : Proper (front ++ (id, anchor) :: rest) := lists.sublist (by cases front <;> rfl)
      ((List.Sublist.refl _).append ((List.sublist_append_right _ _).cons_cons _))
    rw [went]
    rcases outcome with ⟨kept, further, rfl, rfl, holds⟩ | ⟨fresh, ahead, rfl, holds⟩
    · exact ⟨id, _, storeAfter_same allow unlike gone, left, holds⟩
    · exact ⟨fresh, _, storeAfter_new allow unlike gone ahead,
        left.insert ⟨near, fun entry head => (ahead entry head).le⟩ small, holds⟩
  · rw [lists.setBreak_refused (not_le.mp near)]
    refine fun fresh => Or.inl ⟨rfl, fun ordered => near ?_⟩
    have ahead : ∀ entry ∈ back.head?, value.position < entry.2.position := fun entry head =>
      (not_le.mp near).trans_le (lists.ordered.behind entry (List.mem_of_mem_head? head))
    have stored : storeAfter fresh id value allow (front ++ (id, anchor) :: ([] ++ back)) = _ :=
      storeAfter_new allow unlike (fun _ member => nomatch member) ahead
    rw [List.nil_append] at stored
    rw [stored] at ordered
    exact ((ordered_insert_iff lists.ordered).mp ordered).1

/-- **An allowed operation does to an index what it does to the list of the breaks**, and it is
refused only where that list would be out of order or without the break at the start. -/
theorem apply_ends {entries : List Entry} (lists : index.Lists entries) {operation : Operation}
    (allowed : operation.Allowed index) :
    Fault.Ends (fun fault => ∀ fresh, Refuses (operation.onList fresh entries).2 fault)
      (fun outcome => ∃ fresh after,
        operation.onList fresh entries = (outcome.1, after) ∧ outcome.2.Lists after)
      (operation.apply index) := by
  have listed := lists.holds.toList_eq
  cases operation with
  | insertAfter after value =>
    obtain ⟨live, small, room⟩ := allowed
    obtain ⟨front, anchor, back, rfl⟩ := lists.holds.exists_split_of_contains live
    have unlike := lists.holds.apart.1
    have ends := lists.insertAfter_ends room small
    simp only [Operation.apply, Operation.onList, upTo_eq unlike, behind_eq unlike,
      ← List.append_cons]
    exact ends.bind fun outcome holds => ⟨outcome.1, _, rfl, holds⟩
  | deleteRange start stop =>
    obtain ⟨live, notBefore⟩ := allowed
    obtain ⟨front, value, rest, rfl⟩ := lists.holds.exists_split_of_contains live
    have unlike := lists.holds.apart.1
    rw [listed, fromOn_eq unlike] at notBefore
    simp only [Operation.apply, Operation.onList, inFront_eq unlike]
    cases stop with
    | none =>
      rw [← List.append_nil ((start, value) :: rest)] at lists
      exact (lists.deleteRange_ends.weaken fun fault refuses _ => refuses).bind
        fun other holds => ⟨start, _, rfl, holds⟩
    | some stop =>
      rw [Option.map_some, Option.getD_some]
      rcases List.mem_cons.mp (notBefore stop rfl) with rfl | later
      · have nothing : index.deleteRange stop (some stop) = .ok index := by
          unfold deleteRange
          rw [deleteFrom, if_pos rfl]
          rfl
        rw [nothing, fromOn_eq unlike]
        exact ⟨stop, _, rfl, lists⟩
      · obtain ⟨⟨stop, final⟩, inRest, rfl⟩ := List.mem_map.mp later
        obtain ⟨middle, back, rfl⟩ := Holds.exists_split inRest
        have regroup : front ++ (start, value) :: (middle ++ (stop, final) :: back) =
            (front ++ (start, value) :: middle) ++ (stop, final) :: back := by simp
        have apart := (regroup ▸ lists.holds).apart.1
        rw [regroup, fromOn_eq apart]
        exact (lists.deleteRange_ends.weaken fun fault refuses _ => refuses).bind
          fun other holds => ⟨start, _, rfl, holds⟩
  | truncateAfter id =>
    obtain ⟨front, value, back, rfl⟩ := lists.holds.exists_split_of_contains allowed
    obtain ⟨other, truncated, listsOther⟩ := lists.truncateAfter_ends
    simp only [Operation.apply, Operation.onList, truncated, upTo_eq lists.holds.apart.1]
    exact ⟨id, _, rfl, listsOther⟩
  | shiftFrom id distance =>
    obtain ⟨live, stays, behind⟩ := allowed
    obtain ⟨front, value, back, rfl⟩ := lists.holds.exists_split_of_contains live
    have unlike := lists.holds.apart.1
    rw [listed, inFront_eq unlike, fromOn_eq unlike] at behind
    obtain ⟨other, went, listsOther⟩ :=
      lists.shiftFrom_ends stays fun before last => behind before last _ rfl
    simp only [Operation.apply, Operation.onList, went, inFront_eq unlike, fromOn_eq unlike]
    exact ⟨id, _, rfl, listsOther⟩
  | setBreak after value allowFixedPoint =>
    obtain ⟨live, small, room⟩ := allowed
    obtain ⟨front, anchor, back, rfl⟩ := lists.holds.exists_split_of_contains live
    rw [listed, behind_eq lists.holds.apart.1] at room
    simp only [Operation.apply, Operation.onList]
    refine (lists.setBreak_ends room small).bind ?_
    rintro outcome ⟨fresh, entries, stored, holds⟩
    exact ⟨fresh, entries, by rw [stored]; rfl, holds⟩
  | clear => exact ⟨first, _, rfl, lists_initial⟩

end Lists

/-! ### The number of slots -/

section Slots

variable {index other : BreakIndex} {after id : BreakId} {value : Break}

/-- There are no more slots than numbers for them. -/
def Numbered (index : BreakIndex) : Prop := index.nodes.size ≤ idRange

instance : DecidablePred Numbered := fun _ => inferInstanceAs (Decidable (_ ≤ _))

/-- There are as many slots as before, or one more, and then none is free: a new one is made only where
there is no free one. -/
def Grows (index other : BreakIndex) : Prop :=
  other.nodes.size = index.nodes.size ∨
    other.nodes.size = index.nodes.size + 1 ∧ other.free = []

theorem Grows.size_le (grows : index.Grows other) : other.nodes.size ≤ index.nodes.size + 1 :=
  grows.elim (fun same => same.le.trans (Nat.le_succ _)) fun more => more.1.le

theorem Grows.le_size (grows : index.Grows other) : index.nodes.size ≤ other.nodes.size :=
  grows.elim (fun same => same.ge) fun more => (Nat.le_succ _).trans more.1.ge

/-- So there are no more slots than before, or than breaks. -/
theorem Grows.size_le_max {entries : List Entry} (grows : index.Grows other)
    (holds : other.Holds entries) : other.nodes.size ≤ max index.nodes.size entries.length := by
  rcases grows with same | ⟨-, none⟩
  · exact same.le.trans (le_max_left _ _)
  · have slots := holds.length_add_free
    rw [none, List.length_nil, Nat.add_zero] at slots
    exact slots.ge.trans (le_max_right _ _)

theorem grows_allocate (index : BreakIndex) (node : BreakNode) :
    index.Grows (index.allocate node).2 := by
  unfold allocate
  cases index.free with
  | nil => exact Or.inr ⟨Array.size_push _, rfl⟩
  | cons id free => exact Or.inl Array.size_setIfInBounds

/-- A break that is stored takes the slots of the node that is made for it. -/
theorem exists_allocate_of_insertAfter (went : index.insertAfter after value = .ok (id, other)) :
    ∃ node, other.nodes.size = (index.allocate node).2.nodes.size ∧
      other.free = (index.allocate node).2.free := by
  unfold insertAfter at went
  obtain ⟨next, -, went⟩ := Fault.bind_eq_ok.mp went
  obtain ⟨position, -, went⟩ := Fault.bind_eq_ok.mp went
  refine ⟨⟨value, some after, next⟩, ?_⟩
  dsimp only at went
  split at went
  · cases went
  · cases next with
    | none =>
      cases went
      exact ⟨size_nodes_modify _ _ _, rfl⟩
    | some next =>
      obtain ⟨behind, -, went⟩ := Fault.bind_eq_ok.mp went
      split at went
      · cases went
      · cases went
        exact ⟨by simp, rfl⟩

theorem grows_of_insertAfter (went : index.insertAfter after value = .ok (id, other)) :
    index.Grows other := by
  obtain ⟨node, size, free⟩ := exists_allocate_of_insertAfter went
  have allocates := grows_allocate index node
  unfold Grows at allocates ⊢
  rwa [size, free]

/-- Where there are numbers for all slots after a break was stored, there was room for it. -/
theorem hasRoom_of_insertAfter (went : index.insertAfter after value = .ok (id, other))
    (numbered : other.Numbered) : index.HasRoom := by
  by_cases free : index.free = []
  · obtain ⟨node, size, -⟩ := exists_allocate_of_insertAfter went
    unfold Numbered at numbered
    rw [size, allocate, free] at numbered
    exact Or.inr (Nat.lt_of_lt_of_le (Nat.lt_succ_self _) ((Array.size_push _).ge.trans numbered))
  · exact Or.inl free

theorem size_of_remove (went : index.remove id = .ok other) :
    other.nodes.size = index.nodes.size := by
  unfold remove at went
  split at went
  · cases went
  · obtain ⟨⟨value, previous, next⟩, -, went⟩ := Fault.bind_eq_ok.mp went
    cases went
    cases previous <;> cases next <;> simp

/-- A break that is stored gets a new slot only where there is no free one. -/
theorem grows_of_setBreak {allow : Bool} {result : SetBreak}
    (went : index.setBreak after value allow = .ok (result, other)) : index.Grows other := by
  refine setBreak_keeps (motive := fun fewer => fewer.nodes.size = index.nodes.size)
    (fun same removed => (size_of_remove removed).trans same) index.Grows (fun same inserted => ?_)
    (fun same => Or.inl same) rfl went
  have grows := grows_of_insertAfter inserted
  unfold Grows at grows ⊢
  rwa [same] at grows

/-- The same where a break was stored that no other one made way for. -/
theorem Holds.hasRoom_of_setBreak {front back : List Entry} {anchor : Break} {allow : Bool}
    {result : SetBreak} (holds : index.Holds (front ++ (after, anchor) :: back))
    (before : ∀ entry ∈ back.head?, value.position < entry.2.position)
    (went : index.setBreak after value allow = .ok (result, other)) (numbered : other.Numbered) :
    index.HasRoom := by
  have inserts (went : setFrom.insert after value index = .ok (result, other)) : index.HasRoom := by
    obtain ⟨⟨id, stored⟩, inserted, went⟩ := Fault.bind_eq_ok.mp went
    cases went
    exact hasRoom_of_insertAfter inserted numbered
  unfold setBreak at went
  rw [holds.next_eq, Fault.ok_bind] at went
  cases back with
  | nil => exact inserts went
  | cons entry rest =>
    rw [List.append_cons] at holds
    rw [firstId_cons, setFrom, holds.get_eq, Fault.ok_bind, if_pos (before entry rfl)] at went
    exact inserts went

/-- Moving breaks takes no slot. -/
theorem size_of_shiftFrom {distance : Int} (went : index.shiftFrom id distance = .ok other) :
    other.nodes.size = index.nodes.size :=
  shiftFrom_keeps (motive := fun moved => moved.nodes.size = index.nodes.size)
    (fun same _ => (size_nodes_modify _ _ _).trans same) rfl went

/-- Neither does deleting them. -/
theorem size_of_deleteRange {start : BreakId} {stop : Option BreakId}
    (went : index.deleteRange start stop = .ok other) : other.nodes.size = index.nodes.size :=
  deleteRange_keeps (motive := fun fewer => fewer.nodes.size = index.nodes.size)
    (fun same removed => (size_of_remove removed).trans same) rfl went

theorem size_of_truncateAfter (went : index.truncateAfter id = .ok other) :
    other.nodes.size = index.nodes.size :=
  truncateAfter_keeps (motive := fun fewer => fewer.nodes.size = index.nodes.size)
    (fun same removed => (size_of_remove removed).trans same) rfl went

/-- An operation takes one new slot at most. -/
theorem size_of_apply {operation : Operation} {answer : Option SetBreak}
    (went : operation.apply index = .ok (answer, other)) :
    other.nodes.size ≤ index.nodes.size + 1 := by
  cases operation with
  | insertAfter after value =>
    obtain ⟨⟨id, stored⟩, inserted, went⟩ := Fault.bind_eq_ok.mp went
    cases went
    exact (grows_of_insertAfter inserted).size_le
  | deleteRange start stop =>
    obtain ⟨deleted, deletes, went⟩ := Fault.bind_eq_ok.mp went
    cases went
    exact (size_of_deleteRange deletes).le.trans (Nat.le_succ _)
  | truncateAfter id =>
    obtain ⟨deleted, deletes, went⟩ := Fault.bind_eq_ok.mp went
    cases went
    exact (size_of_truncateAfter deletes).le.trans (Nat.le_succ _)
  | shiftFrom id distance =>
    obtain ⟨moved, moves, went⟩ := Fault.bind_eq_ok.mp went
    cases went
    exact (size_of_shiftFrom moves).le.trans (Nat.le_succ _)
  | setBreak after value allowFixedPoint =>
    obtain ⟨⟨result, stored⟩, stores, went⟩ := Fault.bind_eq_ok.mp went
    cases went
    exact (grows_of_setBreak stores).size_le
  | clear =>
    cases went
    exact Nat.succ_le_succ (Nat.zero_le _)

end Slots

/-! ### Sequences of operations -/

namespace Reaches

variable {operations : List Operation} {index : BreakIndex}

theorem lists (reached : Reaches operations index) : index.Lists index.toList := by
  induction reached with
  | initial => exact lists_initial.toList
  | apply _ allowed went before =>
    have ends := before.apply_ends allowed
    rw [went] at ends
    obtain ⟨fresh, after, -, lists⟩ := ends
    exact lists.toList

/-- There is a slot for each operation at most, and the one at the start. -/
theorem size_le (reached : Reaches operations index) :
    index.nodes.size ≤ operations.length + 1 := by
  induction reached with
  | initial => exact le_rfl
  | apply _ _ went before =>
    rw [List.length_append]
    exact (size_of_apply went).trans (Nat.succ_le_succ before)

end Reaches

end Highlight.BreakIndex
