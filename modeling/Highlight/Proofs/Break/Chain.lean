/-
**The breaks of an index as a list.**

The slots of an index form a chain that is linked in both directions, and beside it there are free
slots:

* `BreakIndex.Linked`, `BreakIndex.Holds`: an index that holds a list of breaks;
* `BreakIndex.Holds.node?_eq`: a break is linked with its neighbours in the list;
* `BreakIndex.Holds.toList_eq`: the list can be had from the index;
* `BreakIndex.Holds.seekBefore_spec`, `BreakIndex.Holds.seekBefore_last`: **the last break at or before a
  position is found**, wherever the walk to it begins.
-/

import Mathlib.Data.List.Perm.Subperm
import Mathlib.Data.List.Range
import Highlight.Proofs.Fault
import Highlight.Break.Index

namespace Highlight

namespace BreakIndex

/-- A break with its slot. -/
abbrev Entry := BreakId × Break

/-- The slot of the first of some breaks, or else the one behind them. -/
def firstId (entries : List Entry) (behind : Option BreakId) : Option BreakId :=
  (entries.head?.map Prod.fst).or behind

/-- The slot of the last of some breaks, or else the one before them. -/
def lastId (entries : List Entry) (before : Option BreakId) : Option BreakId :=
  (entries.getLast?.map Prod.fst).or before

@[simp]
theorem firstId_nil (behind : Option BreakId) : firstId [] behind = behind := rfl

@[simp]
theorem firstId_cons (entry : Entry) (rest : List Entry) (behind : Option BreakId) :
    firstId (entry :: rest) behind = some entry.1 := rfl

@[simp]
theorem firstId_append (front back : List Entry) (behind : Option BreakId) :
    firstId (front ++ back) behind = firstId front (firstId back behind) := by
  cases front <;> rfl

@[simp]
theorem lastId_nil (before : Option BreakId) : lastId [] before = before := rfl

@[simp]
theorem lastId_cons (entry : Entry) (rest : List Entry) (before : Option BreakId) :
    lastId (entry :: rest) before = lastId rest (some entry.1) := by
  unfold lastId
  cases rest with
  | nil => rfl
  | cons other rest =>
    rw [List.getLast?_cons_cons]
    simp [List.getLast?_cons]

@[simp]
theorem lastId_append (front back : List Entry) (before : Option BreakId) :
    lastId (front ++ back) before = lastId back (lastId front before) := by
  induction front generalizing before with
  | nil => rfl
  | cons entry rest ih => rw [List.cons_append, lastId_cons, lastId_cons, ih]

/-! ### Chains -/

/-- The breaks of a list are linked with each other and with what is before and behind them. -/
def Linked (index : BreakIndex) (before : Option BreakId) :
    List Entry → (behind : Option BreakId) → Prop
  | [], _ => True
  | (id, value) :: rest, behind =>
    index.node? id = some ⟨value, before, firstId rest behind⟩ ∧ Linked index (some id) rest behind

theorem linked_append {index : BreakIndex} {front back : List Entry}
    {before behind : Option BreakId} :
    index.Linked before (front ++ back) behind ↔
      index.Linked before front (firstId back behind) ∧
        index.Linked (lastId front before) back behind := by
  induction front generalizing before with
  | nil => exact (iff_of_eq (true_and _)).symm
  | cons entry rest ih =>
    obtain ⟨id, value⟩ := entry
    rw [List.cons_append, Linked, Linked, ih, firstId_append, lastId_cons, and_assoc]

theorem Linked.congr {index other : BreakIndex} {entries : List Entry}
    {before behind : Option BreakId} (linked : index.Linked before entries behind)
    (same : ∀ entry ∈ entries, other.node? entry.1 = index.node? entry.1) :
    other.Linked before entries behind := by
  induction entries generalizing before with
  | nil => trivial
  | cons entry rest ih =>
    obtain ⟨id, value⟩ := entry
    refine ⟨?_, ih linked.2 fun entry member => same entry (List.mem_cons_of_mem _ member)⟩
    rw [same (id, value) List.mem_cons_self]
    exact linked.1

/-- **An index holds the breaks of a list**, in this order, and no others. The first of them is the
break in the first slot. -/
structure Holds (index : BreakIndex) (entries : List Entry) : Prop where
  linked : index.Linked none entries none
  starts : ∃ value rest, entries = (first, value) :: rest
  nodup : (entries.map Prod.fst).Nodup
  last : lastId entries none = some index.last
  size : entries.length = index.size
  live : ∀ id, (index.node? id).isSome → id ∈ entries.map Prod.fst
  free : ∀ id, id ∈ index.free ↔ id < index.nodes.size ∧ index.node? id = none
  freeNodup : index.free.Nodup

/-- The breaks of a list are at different positions and in order. -/
def Sorted (entries : List Entry) : Prop :=
  entries.Pairwise fun entry other => entry.2.position < other.2.position

/-- The breaks of a list are in order; two of them may be at one position. -/
def Ordered (entries : List Entry) : Prop :=
  entries.Pairwise fun entry other => entry.2.position ≤ other.2.position

theorem Sorted.ordered {entries : List Entry} (sorted : Sorted entries) : Ordered entries :=
  sorted.imp fun before => before.le

theorem Ordered.behind {front back : List Entry} {entry : Entry}
    (ordered : Ordered (front ++ entry :: back)) :
    ∀ other ∈ back, entry.2.position ≤ other.2.position :=
  (List.pairwise_cons.mp (List.pairwise_append.mp ordered).2.1).1

/-- Of two breaks that are in order the one at the lower position comes first. -/
theorem Ordered.exists_middle {behind ahead front back : List Entry} {entry other : Entry}
    (ordered : Ordered (front ++ other :: back))
    (split : behind ++ entry :: ahead = front ++ other :: back)
    (inFront : entry.2.position < other.2.position) :
    ∃ middle, front = behind ++ entry :: middle ∧ ahead = middle ++ other :: back := by
  rcases List.append_eq_append_iff.mp split with ⟨middle, front_eq, same⟩ | ⟨middle, -, same⟩
  · cases middle with
    | nil =>
      cases same
      exact absurd inFront (lt_irrefl _)
    | cons first middle =>
      cases same
      exact ⟨middle, front_eq, rfl⟩
  · cases middle with
    | nil =>
      cases same
      exact absurd inFront (lt_irrefl _)
    | cons first middle =>
      obtain ⟨rfl, back_eq⟩ := List.cons.inj same
      have notInFront := ordered.behind entry (by simp [back_eq])
      exact absurd inFront (not_lt.mpr notInFront)

/-- If the first of some breaks is behind a position, all are. -/
theorem Ordered.le_of_head {entries : List Entry} (ordered : Ordered entries) {bound : Nat}
    (first : ∀ entry ∈ entries.head?, bound ≤ entry.2.position) :
    ∀ entry ∈ entries, bound ≤ entry.2.position := by
  cases entries with
  | nil => exact fun _ member => nomatch member
  | cons next rest =>
    intro entry member
    have here := first next rfl
    rcases List.mem_cons.mp member with rfl | later
    · exact here
    · exact here.trans ((List.pairwise_cons.mp ordered).1 entry later)

theorem Sorted.behind {front back : List Entry} {entry : Entry}
    (sorted : Sorted (front ++ entry :: back)) :
    ∀ other ∈ back, entry.2.position < other.2.position :=
  (List.pairwise_cons.mp (List.pairwise_append.mp sorted).2.1).1

theorem Sorted.before {front back : List Entry} {entry : Entry}
    (sorted : Sorted (front ++ entry :: back)) :
    ∀ other ∈ front, other.2.position < entry.2.position :=
  fun other member => (List.pairwise_append.mp sorted).2.2 other member entry List.mem_cons_self

theorem holds_initial : initial.Holds [(first, Break.first)] := by
  refine ⟨⟨rfl, trivial⟩, ⟨_, _, rfl⟩, (by simp), rfl, rfl, ?_, ?_, List.nodup_nil⟩
  · intro id live
    cases id with
    | zero => exact List.mem_singleton.mpr rfl
    | succ id => cases live
  · intro id
    constructor
    · intro member
      cases member
    · rintro ⟨inside, none⟩
      have zero : id = 0 := by
        have inside : id < 1 := inside
        exact Nat.lt_one_iff.mp inside
      subst zero
      cases none

theorem lt_size_of_node? {index : BreakIndex} {id : BreakId} {node : BreakNode}
    (here : index.node? id = some node) : id < index.nodes.size := by
  by_contra outside
  unfold node? at here
  rw [Array.getElem?_eq_none (not_lt.mp outside)] at here
  cases here

namespace Holds

variable {index : BreakIndex} {entries front back : List Entry} {id : BreakId} {value : Break}

/-- A break is linked with its neighbours. -/
theorem node?_eq (holds : index.Holds (front ++ (id, value) :: back)) :
    index.node? id = some ⟨value, lastId front none, firstId back none⟩ :=
  (linked_append.mp holds.linked).2.1

theorem node_eq (holds : index.Holds (front ++ (id, value) :: back)) :
    index.node id = .ok ⟨value, lastId front none, firstId back none⟩ := by
  unfold node
  rw [holds.node?_eq]

theorem get_eq (holds : index.Holds (front ++ (id, value) :: back)) :
    index.get id = .ok value := by
  unfold get
  rw [holds.node_eq]
  rfl

theorem position_eq (holds : index.Holds (front ++ (id, value) :: back)) :
    index.position id = .ok value.position := by
  unfold position
  rw [holds.node_eq]
  rfl

theorem next_eq (holds : index.Holds (front ++ (id, value) :: back)) :
    index.next id = .ok (firstId back none) := by
  unfold next
  rw [holds.node_eq]
  rfl

theorem previous_eq (holds : index.Holds (front ++ (id, value) :: back)) :
    index.previous id = .ok (lastId front none) := by
  unfold previous
  rw [holds.node_eq]
  rfl

theorem exists_split (member : (id, value) ∈ entries) :
    ∃ front back, entries = front ++ (id, value) :: back :=
  List.mem_iff_append.mp member

theorem get_of_mem (holds : index.Holds entries) (member : (id, value) ∈ entries) :
    index.get id = .ok value := by
  obtain ⟨front, back, rfl⟩ := exists_split member
  exact holds.get_eq

theorem position_of_mem (holds : index.Holds entries) (member : (id, value) ∈ entries) :
    index.position id = .ok value.position := by
  obtain ⟨front, back, rfl⟩ := exists_split member
  exact holds.position_eq

/-- Every slot with a break belongs to the list. -/
theorem exists_of_contains (holds : index.Holds entries) (live : index.contains id = true) :
    ∃ value, (id, value) ∈ entries := by
  obtain ⟨entry, member, rfl⟩ := List.mem_map.mp (holds.live id live)
  exact ⟨entry.2, member⟩

/-- A slot with a break is one in the list. -/
theorem mem_ids_iff (holds : index.Holds entries) :
    id ∈ entries.map Prod.fst ↔ index.contains id = true := by
  constructor
  · intro member
    obtain ⟨⟨id, value⟩, inEntries, rfl⟩ := List.mem_map.mp member
    obtain ⟨front, back, rfl⟩ := exists_split inEntries
    unfold contains
    rw [holds.node?_eq]
    rfl
  · exact holds.live id

theorem exists_split_of_contains (holds : index.Holds entries) (live : index.contains id = true) :
    ∃ front value back, entries = front ++ (id, value) :: back := by
  obtain ⟨value, member⟩ := holds.exists_of_contains live
  obtain ⟨front, back, split⟩ := exists_split member
  exact ⟨front, value, back, split⟩

/-- There are no more breaks than slots. -/
theorem length_le (holds : index.Holds entries) : entries.length ≤ index.nodes.size := by
  have within : entries.map Prod.fst ⊆ List.range index.nodes.size := by
    intro id member
    obtain ⟨⟨id, value⟩, inEntries, rfl⟩ := List.mem_map.mp member
    obtain ⟨front, back, rfl⟩ := exists_split inEntries
    exact List.mem_range.mpr (lt_size_of_node? holds.node?_eq)
  have bound := (List.Nodup.subperm holds.nodup within).length_le
  rwa [List.length_map, List.length_range] at bound

/-! ### Lists -/

theorem listFrom_eq {before : Option BreakId} {fuel : Nat}
    (linked : index.Linked before entries none) (enough : entries.length ≤ fuel) :
    index.listFrom fuel (firstId entries none) = entries := by
  induction entries generalizing before fuel with
  | nil => cases fuel <;> rfl
  | cons entry rest ih =>
    obtain ⟨id, value⟩ := entry
    cases fuel with
    | zero => cases enough
    | succ fuel =>
      rw [firstId_cons, listFrom, linked.1]
      simp only
      rw [ih linked.2 (Nat.le_of_succ_le_succ enough)]

/-- The list of breaks can be had from the index. -/
theorem toList_eq (holds : index.Holds entries) : index.toList = entries := by
  obtain ⟨value, rest, starts⟩ := holds.starts
  have start : firstId entries none = some first := by
    rw [starts]
    rfl
  unfold toList
  rw [← start]
  exact listFrom_eq holds.linked holds.length_le

/-! ### Looking for a position -/

/-- Going forward leads to the last break at or before a position, if it begins at one that is. -/
theorem seekForward_spec {position fuel : Nat}
    (holds : index.Holds (front ++ (id, value) :: back)) (enough : back.length < fuel)
    (inFront : value.position ≤ position) :
    ∃ front' id' value' back', front ++ (id, value) :: back = front' ++ (id', value') :: back' ∧
      index.seekForward position fuel id = .ok id' ∧ value'.position ≤ position ∧
      ∀ entry ∈ back'.head?, position < entry.2.position := by
  induction fuel generalizing front id value back with
  | zero => cases enough
  | succ fuel ih =>
    rw [seekForward, holds.next_eq]
    cases back with
    | nil => exact ⟨front, id, value, [], rfl, rfl, inFront, fun _ member => nomatch member⟩
    | cons entry rest =>
      obtain ⟨next, following⟩ := entry
      have moved : front ++ (id, value) :: (next, following) :: rest =
          (front ++ [(id, value)]) ++ (next, following) :: rest := by simp
      show ∃ front' id' value' back', _ ∧ (do
          if position < (← index.position next) then return id
          else seekForward index position fuel next : Except Fault BreakId) = .ok id' ∧ _
      have holdsNext := holds
      rw [moved] at holdsNext
      rw [holdsNext.position_eq]
      show ∃ front' id' value' back', _ ∧
        (if position < following.position then _ else _) = Except.ok id' ∧ _
      by_cases behind : position < following.position
      · refine ⟨front, id, value, (next, following) :: rest, rfl, if_pos behind, inFront, ?_⟩
        intro entry member
        cases member
        exact behind
      · rw [if_neg behind, moved]
        exact ih holdsNext (Nat.lt_of_succ_lt_succ enough) (not_lt.mp behind)

/-- Going back leads to the last break at or before a position, if it begins behind it. -/
theorem seekBackward_spec {position fuel : Nat}
    (holds : index.Holds (front ++ (id, value) :: back)) (enough : front.length < fuel)
    (starts : ∀ entry ∈ (front ++ (id, value) :: back).head?, entry.2.position ≤ position)
    (behind : ∀ entry ∈ back.head?, position < entry.2.position) :
    ∃ front' id' value' back', front ++ (id, value) :: back = front' ++ (id', value') :: back' ∧
      index.seekBackward position fuel id = .ok id' ∧ value'.position ≤ position ∧
      ∀ entry ∈ back'.head?, position < entry.2.position := by
  induction fuel generalizing front id value back with
  | zero => cases enough
  | succ fuel ih =>
    rw [seekBackward, holds.position_eq]
    show ∃ front' id' value' back', _ ∧
      (if value.position ≤ position then _ else _) = Except.ok id' ∧ _
    by_cases inFront : value.position ≤ position
    · exact ⟨front, id, value, back, rfl, if_pos inFront, inFront, behind⟩
    · rw [if_neg inFront, holds.previous_eq]
      rcases List.eq_nil_or_concat' front with rfl | ⟨before, entry, rfl⟩
      · exact absurd (starts (id, value) rfl) inFront
      · obtain ⟨previous, preceding⟩ := entry
        have moved : (before ++ [(previous, preceding)]) ++ (id, value) :: back =
            before ++ (previous, preceding) :: (id, value) :: back := by simp
        rw [moved] at holds starts ⊢
        rw [lastId_append]
        refine ih holds ?_ starts ?_
        · rw [List.length_append] at enough
          exact Nat.lt_of_succ_lt_succ enough
        · intro entry member
          cases member
          exact not_le.mp inFront

/-- The walk to a position begins at some break, from where it goes forward or back. -/
theorem seekBefore_eq (holds : index.Holds entries) (hint : Option BreakId) (position : Nat) :
    ∃ id value, (id, value) ∈ entries ∧ index.seekBefore hint position =
      if value.position ≤ position then index.seekForward position index.nodes.size id
      else index.seekBackward position index.nodes.size id := by
  obtain ⟨value, rest, starts⟩ := holds.starts
  have member : (first, value) ∈ entries := by
    rw [starts]
    exact List.mem_cons_self
  unfold seekBefore
  cases hint with
  | none =>
    refine ⟨first, value, member, ?_⟩
    simp only [holds.position_of_mem member]
    rfl
  | some id =>
    cases live : index.contains id with
    | true =>
      obtain ⟨value, inEntries⟩ := holds.exists_of_contains live
      refine ⟨id, value, inEntries, ?_⟩
      simp only [live, if_true, holds.position_of_mem inEntries]
      rfl
    | false =>
      refine ⟨first, value, member, ?_⟩
      simp only [live, Bool.false_eq_true, if_false, holds.position_of_mem member]
      rfl

/-- **The last break at or before a position is found**, wherever the walk to it begins. -/
theorem seekBefore_spec {position : Nat} (holds : index.Holds entries)
    (ordered : Ordered entries) (starts : ∀ entry ∈ entries.head?, entry.2.position ≤ position)
    (hint : Option BreakId) :
    ∃ front id value back, entries = front ++ (id, value) :: back ∧
      index.seekBefore hint position = .ok id ∧ value.position ≤ position ∧
      ∀ entry ∈ back, position < entry.2.position := by
  obtain ⟨begins, start, member, found⟩ := holds.seekBefore_eq hint position
  rw [found]
  obtain ⟨front, back, rfl⟩ := exists_split member
  have bound := holds.length_le
  rw [List.length_append, List.length_cons] at bound
  have all : ∀ {front' id value back'},
      front ++ (begins, start) :: back = front' ++ (id, value) :: back' →
      (∀ entry ∈ back'.head?, position < entry.2.position) →
      ∀ entry ∈ back', position < entry.2.position := by
    intro front' id value back' same next
    rw [same] at ordered
    exact Ordered.le_of_head (List.pairwise_cons.mp (List.pairwise_append.mp ordered).2.1).2 next
  by_cases inFront : start.position ≤ position
  · rw [if_pos inFront]
    obtain ⟨front', id, value, back', same, found, near, next⟩ :=
      holds.seekForward_spec (show back.length < index.nodes.size by omega) inFront
    exact ⟨front', id, value, back', same, found, near, all same next⟩
  · rw [if_neg inFront]
    obtain ⟨front', id, value, back', same, found, near, next⟩ :=
      holds.seekBackward_spec (show front.length < index.nodes.size by omega) starts
        fun entry inBack => (not_le.mp inFront).trans_le
          (ordered.behind entry (List.mem_of_mem_head? inBack))
    exact ⟨front', id, value, back', same, found, near, all same next⟩

/-- **Every search for a position finds the same break**, the last one in the list that is at or before
it. -/
theorem seekBefore_last {position : Nat} (holds : index.Holds entries)
    (ordered : Ordered entries) (starts : ∀ entry ∈ entries.head?, entry.2.position ≤ position) :
    ∃ entry, (entries.filter fun entry => entry.2.position ≤ position).getLast? = some entry ∧
      ∀ hint, index.seekBefore hint position = .ok entry.1 := by
  have sought : ∀ hint, ∃ entry,
      (entries.filter fun entry => entry.2.position ≤ position).getLast? = some entry ∧
        index.seekBefore hint position = .ok entry.1 := by
    intro hint
    obtain ⟨front, id, value, back, rfl, found, near, behind⟩ :=
      holds.seekBefore_spec ordered starts hint
    refine ⟨(id, value), ?_, found⟩
    have none : back.filter (fun entry => entry.2.position ≤ position) = [] :=
      List.filter_eq_nil_iff.mpr fun entry member => by simpa using behind entry member
    rw [List.filter_append, List.filter_cons_of_pos (by simpa using near), none,
      List.getLast?_concat]
  obtain ⟨entry, last, -⟩ := sought none
  refine ⟨entry, last, fun hint => ?_⟩
  obtain ⟨other, lastToo, found⟩ := sought hint
  cases last.symm.trans lastToo
  exact found

end Holds

end BreakIndex

end Highlight
