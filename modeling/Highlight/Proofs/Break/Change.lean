/-
**What the changes of an index do to its breaks.**

Each change of an index is one of the list of its breaks, and goes well where it should:

* `BreakIndex.Relinked`: the links of two neighbours are all that such a change touches;
* `BreakIndex.Holds.insertAfter_spec`, `BreakIndex.Holds.remove_spec`: a break more, a break less;
* `BreakIndex.Holds.deleteRange_spec`, `BreakIndex.Holds.truncateAfter_spec`: a range of breaks less;
* `BreakIndex.Holds.shiftFrom_spec`: breaks moved along with the text;
* `BreakIndex.Holds.setBreak_spec`: **a break stored in the place of the ones that were passed**.

What single steps keep is kept by all of these that go well: `BreakIndex.truncateAfter_keeps`,
`BreakIndex.shiftFrom_keeps`, `BreakIndex.setBreak_keeps`.
-/

import Mathlib.Data.List.Nodup
import Highlight.Proofs.Break.Chain

namespace Highlight.BreakIndex

/-! ### Slots -/

theorem node?_modify (index : BreakIndex) (id : BreakId) (change : BreakNode → BreakNode)
    (other : BreakId) :
    (index.modify id change).node? other =
      if other = id then (index.node? other).map change else index.node? other := by
  unfold modify node?
  rw [Array.getElem?_modify]
  by_cases same : id = other
  · rw [if_pos same, if_pos same.symm]
    cases index.nodes[other]? <;> rfl
  · rw [if_neg same, if_neg (Ne.symm same)]

@[simp]
theorem size_nodes_modify (index : BreakIndex) (id : BreakId) (change : BreakNode → BreakNode) :
    (index.modify id change).nodes.size = index.nodes.size := Array.size_modify

@[simp]
theorem free_modify (index : BreakIndex) (id : BreakId) (change : BreakNode → BreakNode) :
    (index.modify id change).free = index.free := rfl

/-- Changing the last of some linked breaks changes what is behind them. -/
theorem Linked.setBehind {index other : BreakIndex} {front : List Entry} {id : BreakId}
    {value : Break} {before behind behind' : Option BreakId}
    (linked : index.Linked before (front ++ [(id, value)]) behind)
    (same : ∀ entry ∈ front, other.node? entry.1 = index.node? entry.1)
    (changed : other.node? id = (index.node? id).map fun node => { node with next := behind' }) :
    other.Linked before (front ++ [(id, value)]) behind' := by
  obtain ⟨inFront, here, -⟩ := linked_append.mp linked
  refine linked_append.mpr ⟨inFront.congr same, ?_, trivial⟩
  rw [changed, here]
  rfl

/-- Changing the first of some linked breaks changes what is before them. -/
theorem Linked.setBefore {index other : BreakIndex} {back : List Entry}
    {before before' behind : Option BreakId} (linked : index.Linked before back behind)
    (changed : ∀ entry ∈ back.head?,
      other.node? entry.1 = (index.node? entry.1).map fun node => { node with previous := before' })
    (same : ∀ entry ∈ back.tail, other.node? entry.1 = index.node? entry.1) :
    other.Linked before' back behind := by
  cases back with
  | nil => trivial
  | cons entry rest =>
    obtain ⟨id, value⟩ := entry
    refine ⟨?_, linked.2.congr same⟩
    rw [changed (id, value) rfl, linked.1]
    rfl

theorem eq_none_of_modify {index : BreakIndex} {id : BreakId} {change : BreakNode → BreakNode}
    {slot : BreakId} : (index.modify id change).node? slot = none ↔ index.node? slot = none := by
  rw [node?_modify]
  split
  · exact Option.map_eq_none_iff
  · exact Iff.rfl

/-- Slots that are all different: those before and behind one are others than it and than each other. -/
theorem apart_of_nodup {front back : List Entry} {id : BreakId} {value : Break}
    (nodup : ((front ++ (id, value) :: back).map Prod.fst).Nodup) :
    (∀ entry ∈ front, entry.1 ≠ id) ∧ (∀ entry ∈ back, entry.1 ≠ id) ∧
      ∀ entry ∈ front, ∀ other ∈ back, entry.1 ≠ other.1 := by
  rw [List.map_append, List.map_cons, List.nodup_append, List.nodup_cons] at nodup
  obtain ⟨-, ⟨unlike, -⟩, disjoint⟩ := nodup
  refine ⟨fun entry member => ?_, fun entry member same => ?_, fun entry member other later => ?_⟩
  · exact disjoint entry.1 (List.mem_map_of_mem member) id List.mem_cons_self
  · exact unlike (List.mem_map.mpr ⟨entry, member, same⟩)
  · exact disjoint entry.1 (List.mem_map_of_mem member) other.1
      (List.mem_cons_of_mem _ (List.mem_map_of_mem later))

theorem Holds.apart {index : BreakIndex} {front back : List Entry} {id : BreakId} {value : Break}
    (holds : index.Holds (front ++ (id, value) :: back)) :
    (∀ entry ∈ front, entry.1 ≠ id) ∧ (∀ entry ∈ back, entry.1 ≠ id) ∧
      ∀ entry ∈ front, ∀ other ∈ back, entry.1 ≠ other.1 :=
  apart_of_nodup holds.nodup

theorem ids_perm (front back : List Entry) (anchor entry : Entry) :
    ((front ++ anchor :: entry :: back).map Prod.fst).Perm
      (entry.1 :: (front ++ anchor :: back).map Prod.fst) := by
  rw [List.append_cons, List.append_cons front anchor back]
  exact List.perm_middle.map Prod.fst

/-- A list goes on beginning in the first slot when it changes at or behind one of its breaks. -/
theorem exists_starts {front back back' : List Entry} {id : BreakId} {value value' : Break}
    (starts : ∃ start rest, front ++ (id, value) :: back = (first, start) :: rest) :
    ∃ start rest, front ++ (id, value') :: back' = (first, start) :: rest := by
  obtain ⟨start, rest, starts⟩ := starts
  cases front <;> cases starts <;> exact ⟨_, _, rfl⟩

/-! ### Neighbours -/

/-- The slot `id` has become `node`. The break in the slot `before` has been given a new `next` one and
the first of `back` a new `previous` one; the other slots are as they were. -/
structure Relinked (index other : BreakIndex) (before id : BreakId) (back : List Entry)
    (next previous : Option BreakId) (node : Option BreakNode) : Prop where
  atBefore : other.node? before = (index.node? before).map fun old => { old with next := next }
  atId : other.node? id = node
  atBack : ∀ entry ∈ back.head?, other.node? entry.1 =
    (index.node? entry.1).map fun old => { old with previous := previous }
  same : ∀ slot, slot ≠ before → slot ≠ id → (∀ entry ∈ back.head?, slot ≠ entry.1) →
    other.node? slot = index.node? slot

namespace Relinked

variable {index middle other : BreakIndex} {front back : List Entry} {before id : BreakId}
  {anchor : Break} {next previous : Option BreakId} {node : Option BreakNode}

/-- With no break behind it only the one before is given a neighbour. -/
theorem of_modify (next previous : Option BreakId)
    (slots : ∀ slot, middle.node? slot = if slot = id then node else index.node? slot)
    (unlike : before ≠ id) :
    Relinked index (middle.modify before fun old => { old with next := next }) before id [] next
      previous node := by
  refine ⟨?_, ?_, (fun _ member => nomatch member), fun slot notBefore notId _ => ?_⟩
  · rw [node?_modify, if_pos rfl, slots, if_neg unlike]
  · rw [node?_modify, if_neg unlike.symm, slots, if_pos rfl]
  · rw [node?_modify, if_neg notBefore, slots, if_neg notId]

/-- The break behind is given its neighbour after the one before. -/
theorem modify (relinked : Relinked index other before id [] next previous node) {entry : Entry}
    (notBefore : entry.1 ≠ before) (notId : entry.1 ≠ id) :
    Relinked index (other.modify entry.1 fun old => { old with previous := previous }) before id
      (entry :: back) next previous node := by
  refine ⟨?_, ?_, fun _ atHead => ?_, fun slot unlike notOwn notHead => ?_⟩
  · rw [node?_modify, if_neg notBefore.symm, relinked.atBefore]
  · rw [node?_modify, if_neg notId.symm, relinked.atId]
  · cases atHead
    rw [node?_modify, if_pos rfl, relinked.same _ notBefore notId fun _ member => nomatch member]
  · rw [node?_modify, if_neg (notHead entry rfl),
      relinked.same slot unlike notOwn fun _ member => nomatch member]

theorem congr (relinked : Relinked index middle before id back next previous node)
    (same : ∀ slot, other.node? slot = middle.node? slot) :
    Relinked index other before id back next previous node :=
  ⟨(same before).trans relinked.atBefore, (same id).trans relinked.atId,
    fun entry atHead => (same entry.1).trans (relinked.atBack entry atHead),
    fun slot notBefore notId notHead => (same slot).trans (relinked.same slot notBefore notId notHead)⟩

variable (relinked : Relinked index other before id back next previous node)
include relinked

/-- Only the one slot may have been taken or left. -/
theorem isSome_iff {slot : BreakId} (unlike : slot ≠ id) :
    (other.node? slot).isSome ↔ (index.node? slot).isSome := by
  by_cases isBefore : slot = before
  · rw [isBefore, relinked.atBefore, Option.isSome_map]
  · by_cases isNext : ∃ entry ∈ back.head?, slot = entry.1
    · obtain ⟨entry, atHead, rfl⟩ := isNext
      rw [relinked.atBack entry atHead, Option.isSome_map]
    · rw [relinked.same slot isBefore unlike fun entry atHead equal =>
        isNext ⟨entry, atHead, equal⟩]

variable (nodup : ((front ++ (before, anchor) :: back).map Prod.fst).Nodup)
  (fresh : id ∉ (front ++ (before, anchor) :: back).map Prod.fst)
include nodup fresh

theorem linked_front {start behind : Option BreakId}
    (linked : index.Linked start (front ++ [(before, anchor)]) behind) :
    other.Linked start (front ++ [(before, anchor)]) next := by
  obtain ⟨inFront, -, disjoint⟩ := apart_of_nodup nodup
  refine linked.setBehind (fun entry member => ?_) relinked.atBefore
  have unlike : entry.1 ≠ id := fun same => fresh (same ▸ List.mem_map_of_mem (by simp [member]))
  exact relinked.same entry.1 (inFront entry member) unlike fun first atHead =>
    disjoint entry member first (List.mem_of_mem_head? atHead)

theorem linked_back {start : Option BreakId} (linked : index.Linked start back none) :
    other.Linked previous back none := by
  obtain ⟨-, inBack, -⟩ := apart_of_nodup nodup
  refine linked.setBefore relinked.atBack fun entry member => ?_
  have later := List.mem_of_mem_tail member
  have unlike : entry.1 ≠ id := fun same => fresh (same ▸ List.mem_map_of_mem (by simp [later]))
  refine relinked.same entry.1 (inBack entry later) unlike fun head atHead => ?_
  cases back with
  | nil => cases member
  | cons first rest =>
    cases atHead
    have regroup : front ++ (before, anchor) :: head :: rest =
        (front ++ [(before, anchor)]) ++ (head.1, head.2) :: rest := by simp
    rw [regroup] at nodup
    exact (apart_of_nodup nodup).2.1 entry member

end Relinked

/-! ### A break more -/

/-- A slot more, behind the others, holds the node that it is made for. -/
theorem node?_pushed (index : BreakIndex) (node : BreakNode) (slot : BreakId) :
    node? { index with nodes := index.nodes.push (some node), free := [] } slot =
      if slot = index.nodes.size then some node else index.node? slot := by
  unfold node?
  rw [Array.getElem?_push]
  split <;> rfl

/-- A slot that is there holds the node that is written to it. -/
theorem node?_written (index : BreakIndex) {id : BreakId} (inside : id < index.nodes.size)
    (node : BreakNode) (free : List BreakId) (slot : BreakId) :
    node? { index with nodes := index.nodes.setIfInBounds id (some node), free := free } slot =
      if slot = id then some node else index.node? slot := by
  unfold node?
  simp only
  rw [Array.getElem?_setIfInBounds]
  by_cases same : id = slot
  · rw [if_pos same, if_pos same.symm, if_pos inside]
    rfl
  · rw [if_neg same, if_neg (Ne.symm same)]

/-- There is a slot for one more break, with a number of its own. -/
def HasRoom (index : BreakIndex) : Prop := index.free ≠ [] ∨ index.nodes.size < idRange

instance : DecidablePred HasRoom := fun _ => inferInstanceAs (Decidable (_ ∨ _))

/-- A free slot is taken for a node. -/
theorem Holds.allocate_spec {index : BreakIndex} {entries : List Entry}
    (holds : index.Holds entries) (room : index.HasRoom) (node : BreakNode) :
    ∃ id other, index.allocate node = (id, other) ∧ index.node? id = none ∧
      (∀ slot, other.node? slot = if slot = id then some node else index.node? slot) ∧
      (∀ slot, slot ∈ other.free ↔ slot < other.nodes.size ∧ other.node? slot = none) ∧
      other.free.Nodup ∧ other.last = index.last ∧ other.size = index.size := by
  unfold allocate
  cases listed : index.free with
  | nil =>
    have outside : index.node? index.nodes.size = none := by
      unfold node?
      rw [Array.getElem?_eq_none le_rfl]
      rfl
    have number : index.nodes.size % idRange = index.nodes.size :=
      Nat.mod_eq_of_lt (room.resolve_left fun some => some listed)
    refine ⟨index.nodes.size, _, by rw [number], outside, node?_pushed index node, ?_,
      List.nodup_nil, rfl, rfl⟩
    intro slot
    have listedFree := holds.free slot
    rw [listed] at listedFree
    rw [node?_pushed, Array.size_push]
    show slot ∈ [] ↔ _
    rw [listedFree]
    by_cases new : slot = index.nodes.size
    · rw [if_pos new]
      constructor
      · rintro ⟨inside, -⟩
        exact absurd new (Nat.ne_of_lt inside)
      · rintro ⟨-, absent⟩
        cases absent
    · rw [if_neg new]
      exact and_congr_left' ⟨Nat.lt_succ_of_lt,
        fun inside => lt_of_le_of_ne (Nat.le_of_lt_succ inside) new⟩
  | cons id free =>
    have nodup := holds.freeNodup
    rw [listed, List.nodup_cons] at nodup
    obtain ⟨inside, unused⟩ := (holds.free id).mp (by rw [listed]; exact List.mem_cons_self)
    refine ⟨id, _, rfl, unused, node?_written index inside node free, ?_, nodup.2, rfl, rfl⟩
    intro slot
    rw [node?_written index inside, Array.size_setIfInBounds]
    have listedFree := holds.free slot
    rw [listed, List.mem_cons] at listedFree
    by_cases same : slot = id
    · rw [if_pos same]
      constructor
      · intro member
        exact absurd (same ▸ member) nodup.1
      · rintro ⟨-, absent⟩
        cases absent
    · rw [if_neg same, ← listedFree]
      exact (or_iff_right same).symm

/-- An index with a break more, linked with its neighbours, holds that break as well. -/
theorem Holds.inserted {index other : BreakIndex} {front back : List Entry} {after id : BreakId}
    {anchor value : Break} (holds : index.Holds (front ++ (after, anchor) :: back))
    (fresh : id ∉ (front ++ (after, anchor) :: back).map Prod.fst)
    (relinked : Relinked index other after id back (some id) (some id)
      (some ⟨value, some after, firstId back none⟩))
    (last : some other.last = lastId back (some id)) (size : other.size = index.size + 1)
    (free : ∀ slot, slot ∈ other.free ↔ slot < other.nodes.size ∧ other.node? slot = none)
    (freeNodup : other.free.Nodup) :
    other.Holds (front ++ (after, anchor) :: (id, value) :: back) := by
  have linked := holds.linked
  rw [List.append_cons] at linked
  obtain ⟨inFront, behind⟩ := linked_append.mp linked
  have ids := ids_perm front back (after, anchor) (id, value)
  refine ⟨?_, exists_starts holds.starts, ?_, ?_, ?_, fun slot live => ?_, free, freeNodup⟩
  · rw [List.append_cons]
    refine linked_append.mpr ⟨relinked.linked_front holds.nodup fresh inFront, ?_,
      relinked.linked_back holds.nodup fresh behind⟩
    rw [lastId_append]
    exact relinked.atId
  · exact ids.nodup_iff.mpr (List.nodup_cons.mpr ⟨fresh, holds.nodup⟩)
  · rw [lastId_append, lastId_cons, lastId_cons, last]
  · have length := holds.size
    simp only [List.length_append, List.length_cons] at length ⊢
    omega
  · rw [ids.mem_iff, List.mem_cons]
    exact or_iff_not_imp_left.mpr fun unlike => holds.live slot ((relinked.isSome_iff unlike).mp live)

/-- **A break is stored right after another one**, if there is room for it. -/
theorem Holds.insertAfter_spec {index : BreakIndex} {front back : List Entry} {after : BreakId}
    {anchor value : Break} (holds : index.Holds (front ++ (after, anchor) :: back))
    (room : index.HasRoom)
    (behind : anchor.position ≤ value.position)
    (before : ∀ entry ∈ back.head?, value.position ≤ entry.2.position) :
    ∃ id other, index.insertAfter after value = .ok (id, other) ∧
      other.Holds (front ++ (after, anchor) :: (id, value) :: back) := by
  obtain ⟨id, allocated, allocates, unused, nodes, free, freeNodup, last, size⟩ :=
    holds.allocate_spec room ⟨value, some after, firstId back none⟩
  have fresh : id ∉ (front ++ (after, anchor) :: back).map Prod.fst := fun member => by
    have live := holds.mem_ids_iff.mp member
    unfold contains at live
    rw [unused] at live
    cases live
  have ordered : ¬ value.position < anchor.position := not_lt.mpr behind
  have linksAfter := Relinked.of_modify (some id) (some id) nodes
    fun same : after = id => fresh (by simp [← same])
  cases back with
  | nil =>
    refine ⟨id, { allocated.modify after (fun node => { node with next := some id }) with
      last := id, size := allocated.size + 1 }, ?_, ?_⟩
    · unfold insertAfter
      simp only [holds.next_eq, holds.position_eq, firstId_nil] at allocates ⊢
      simp only [bind, Except.bind, ordered, if_false, pure, Except.pure, allocates]
      rfl
    · refine holds.inserted fresh (linksAfter.congr fun _ => rfl) rfl (congrArg (· + 1) size)
        (fun slot => ?_) freeNodup
      show slot ∈ allocated.free ↔ slot < (allocated.modify after _).nodes.size ∧
        (allocated.modify after _).node? slot = none
      rw [eq_none_of_modify, size_nodes_modify, free]
  | cons entry rest =>
    obtain ⟨next, following⟩ := entry
    refine ⟨id, { (allocated.modify after (fun node => { node with next := some id })).modify next
      (fun node => { node with previous := some id }) with size := allocated.size + 1 }, ?_, ?_⟩
    · have position := (List.append_cons .. ▸ holds).position_eq
      have inOrder : ¬ following.position < value.position :=
        not_lt.mpr (before (next, following) rfl)
      unfold insertAfter
      simp only [holds.next_eq, holds.position_eq, firstId_cons] at allocates ⊢
      simp only [bind, Except.bind, ordered, if_false, pure, Except.pure, allocates, position,
        inOrder]
      rfl
    · have notAfter : next ≠ after := holds.apart.2.1 (next, following) List.mem_cons_self
      have notId : next ≠ id := fun same => fresh (by simp [← same])
      refine holds.inserted fresh ((linksAfter.modify notAfter notId).congr fun _ => rfl) ?_
        (congrArg (· + 1) size) (fun slot => ?_) freeNodup
      · have kept := holds.last
        rw [lastId_append, lastId_cons, lastId_cons] at kept
        rw [lastId_cons, kept]
        exact congrArg some last
      · show slot ∈ allocated.free ↔
          slot < ((allocated.modify after _).modify next _).nodes.size ∧
            ((allocated.modify after _).modify next _).node? slot = none
        rw [eq_none_of_modify, eq_none_of_modify, size_nodes_modify, size_nodes_modify, free]

/-! ### A break less -/

/-- An index without a break, whose neighbours are linked with each other, holds the others. -/
theorem Holds.removed {index other : BreakIndex} {front back : List Entry} {previous id : BreakId}
    {preceding value : Break}
    (holds : index.Holds (front ++ (previous, preceding) :: (id, value) :: back))
    (relinked : Relinked index other previous id back (firstId back none) (some previous) none)
    (last : some other.last = lastId back (some previous)) (size : other.size + 1 = index.size)
    (free : other.free = id :: index.free) (slots : other.nodes.size = index.nodes.size) :
    other.Holds (front ++ (previous, preceding) :: back) := by
  have ids := ids_perm front back (previous, preceding) (id, value)
  obtain ⟨gone, nodup⟩ := List.nodup_cons.mp (ids.nodup_iff.mp holds.nodup)
  have linked := holds.linked
  rw [List.append_cons] at linked
  obtain ⟨inFront, here, behind⟩ := linked_append.mp linked
  refine ⟨?_, exists_starts holds.starts, nodup, ?_, ?_, fun slot live => ?_, fun slot => ?_, ?_⟩
  · rw [List.append_cons]
    refine linked_append.mpr ⟨relinked.linked_front nodup gone inFront, ?_⟩
    rw [lastId_append]
    exact relinked.linked_back nodup gone behind
  · rw [lastId_append, lastId_cons]
    exact last.symm
  · have length := holds.size
    simp only [List.length_append, List.length_cons] at length ⊢
    omega
  · have unlike : slot ≠ id := by
      rintro rfl
      rw [relinked.atId] at live
      cases live
    have member := holds.live slot ((relinked.isSome_iff unlike).mp live)
    rw [ids.mem_iff, List.mem_cons] at member
    exact member.resolve_left unlike
  · rw [free, List.mem_cons, slots, holds.free slot]
    by_cases isId : slot = id
    · rw [isId, relinked.atId]
      exact ⟨fun _ => ⟨lt_size_of_node? here, rfl⟩, fun _ => Or.inl rfl⟩
    · have dead : other.node? slot = none ↔ index.node? slot = none := by
        rw [← Option.not_isSome_iff_eq_none, ← Option.not_isSome_iff_eq_none,
          relinked.isSome_iff isId]
      rw [dead]
      exact or_iff_right isId
  · rw [free, List.nodup_cons]
    refine ⟨fun member => ?_, holds.freeNodup⟩
    have unused := ((holds.free id).mp member).2
    rw [here] at unused
    cases unused

/-- A slot that is left has no break. -/
theorem node?_emptied (index : BreakIndex) (id slot : BreakId) :
    node? { index with nodes := index.nodes.setIfInBounds id none } slot =
      if slot = id then none else index.node? slot := by
  unfold node?
  simp only
  rw [Array.getElem?_setIfInBounds]
  by_cases equal : id = slot
  · rw [if_pos equal, if_pos equal.symm]
    split <;> rfl
  · rw [if_neg equal, if_neg (Ne.symm equal)]

/-- **A break is deleted**, unless it is the first. Its slot is free then. -/
theorem Holds.remove_spec {index : BreakIndex} {front back : List Entry} {id : BreakId}
    {value : Break} (holds : index.Holds (front ++ (id, value) :: back)) (later : front ≠ []) :
    ∃ other, index.remove id = .ok other ∧ other.Holds (front ++ back) ∧ other.HasRoom := by
  obtain rfl | ⟨front, ⟨previous, preceding⟩, rfl⟩ := List.eq_nil_or_concat' front
  · exact absurd rfl later
  have notPrevious : previous ≠ id := holds.apart.1 (previous, preceding) (by simp)
  have notFirst : id ≠ first := by
    obtain ⟨start, rest, starts⟩ := holds.starts
    have member : (first, start) ∈ front ++ [(previous, preceding)] := by
      cases front <;> cases starts <;> exact List.mem_cons_self
    exact (holds.apart.1 _ member).symm
  have node := holds.node_eq
  rw [lastId_append] at node
  rw [← List.append_cons] at holds ⊢
  have size : index.size - 1 + 1 = index.size := by
    have size := holds.size
    rw [List.length_append, List.length_cons] at size
    omega
  have linksPrevious := Relinked.of_modify (firstId back none) (some previous)
    (node?_emptied index id) notPrevious
  cases back with
  | nil =>
    have slots : (modify { index with nodes := index.nodes.setIfInBounds id none } previous
        fun node => { node with next := none }).nodes.size = index.nodes.size := by simp
    refine ⟨{ modify { index with nodes := index.nodes.setIfInBounds id none } previous
        (fun node => { node with next := none }) with
      last := previous, free := id :: index.free, size := index.size - 1 }, ?_,
      holds.removed (linksPrevious.congr fun _ => rfl) rfl size rfl slots,
      Or.inl (List.cons_ne_nil _ _)⟩
    unfold remove
    simp only [node, notFirst, if_false]
    rfl
  | cons entry rest =>
    obtain ⟨next, following⟩ := entry
    have notNext : next ≠ id := (List.append_cons .. ▸ holds).apart.2.1 (next, following) (by simp)
    have apart : next ≠ previous := holds.apart.2.1 (next, following) (by simp)
    have slots : ((modify { index with nodes := index.nodes.setIfInBounds id none } previous
        fun node => { node with next := some next }).modify next fun node =>
          { node with previous := some previous }).nodes.size = index.nodes.size := by simp
    refine ⟨{ (modify { index with nodes := index.nodes.setIfInBounds id none } previous
        (fun node => { node with next := some next })).modify next
        (fun node => { node with previous := some previous }) with
      free := id :: index.free, size := index.size - 1 }, ?_,
      holds.removed ((linksPrevious.modify apart notNext).congr fun _ => rfl) ?_ size rfl slots,
      Or.inl (List.cons_ne_nil _ _)⟩
    · unfold remove
      simp only [node, notFirst, if_false]
      rfl
    · have kept := holds.last
      rw [lastId_append, lastId_cons, lastId_cons, lastId_cons] at kept
      rw [lastId_cons]
      exact kept.symm

/-! ### Ranges of breaks -/

theorem Holds.deleteFrom_spec {index : BreakIndex} {front middle back : List Entry} {fuel : Nat}
    (holds : index.Holds (front ++ (middle ++ back))) (later : front ≠ [])
    (enough : middle.length < fuel) :
    ∃ other, deleteFrom (firstId back none) fuel index (firstId (middle ++ back) none) = .ok other ∧
      other.Holds (front ++ back) := by
  induction middle generalizing index fuel with
  | nil =>
    refine ⟨index, ?_, holds⟩
    cases back with
    | nil =>
      cases fuel <;> rfl
    | cons entry rest =>
      cases fuel with
      | zero => cases enough
      | succ fuel =>
        rw [List.nil_append, firstId_cons, deleteFrom, if_pos rfl]
        rfl
  | cons entry middle ih =>
    obtain ⟨id, value⟩ := entry
    cases fuel with
    | zero => cases enough
    | succ fuel =>
      have unlike : some id ≠ firstId back none := by
        intro equal
        cases back with
        | nil => cases equal
        | cons entry rest =>
          rw [firstId_cons, Option.some_inj] at equal
          exact holds.apart.2.1 entry (by simp) equal.symm
      obtain ⟨other, removed, holdsOther, -⟩ := holds.remove_spec later
      obtain ⟨final, deleted, holdsFinal⟩ := ih holdsOther (Nat.lt_of_succ_lt_succ enough)
      refine ⟨final, ?_, holdsFinal⟩
      rw [List.cons_append, firstId_cons, deleteFrom, if_neg unlike, Fault.bind_eq_ok]
      refine ⟨_, holds.next_eq, ?_⟩
      rw [Fault.bind_eq_ok]
      exact ⟨other, removed, deleted⟩

/-- **The breaks from one on up to another one are deleted.** -/
theorem Holds.deleteRange_spec {index : BreakIndex} {front middle back : List Entry} {id : BreakId}
    {value : Break} (holds : index.Holds (front ++ ((id, value) :: middle ++ back)))
    (later : front ≠ []) :
    ∃ other, index.deleteRange id (firstId back none) = .ok other ∧ other.Holds (front ++ back) := by
  have bound := holds.length_le
  simp only [List.length_append] at bound
  exact holds.deleteFrom_spec later (show _ < index.nodes.size + 1 by omega)

/-- Behind the last break there is nothing to delete. -/
theorem Holds.truncateAfter_last {index : BreakIndex} {front : List Entry} {id : BreakId} {value : Break}
    (holds : index.Holds (front ++ [(id, value)])) : index.truncateAfter id = .ok index := by
  unfold truncateAfter
  rw [holds.next_eq]
  rfl

/-- **Every break after one is deleted.** -/
theorem Holds.truncateAfter_spec {index : BreakIndex} {front back : List Entry} {id : BreakId}
    {value : Break} (holds : index.Holds (front ++ (id, value) :: back)) :
    ∃ other, index.truncateAfter id = .ok other ∧ other.Holds (front ++ [(id, value)]) := by
  cases back with
  | nil => exact ⟨index, holds.truncateAfter_last, holds⟩
  | cons entry rest =>
    obtain ⟨next, following⟩ := entry
    unfold truncateAfter
    rw [holds.next_eq]
    have moved : front ++ (id, value) :: (next, following) :: rest =
        (front ++ [(id, value)]) ++ ((next, following) :: rest ++ []) := by simp
    rw [moved] at holds
    obtain ⟨other, deleted, holdsOther⟩ := holds.deleteRange_spec (by simp)
    rw [List.append_nil] at holdsOther
    exact ⟨other, deleted, holdsOther⟩

/-! ### Breaks that move along -/

/-- A break whose position is moved by a distance. -/
def moveEntry (distance : Int) (entry : Entry) : Entry :=
  (entry.1, { entry.2 with position := shifted entry.2.position distance })

/-- A break is changed where it is. -/
theorem Holds.modifyValue {index : BreakIndex} {front back : List Entry} {id : BreakId}
    {value : Break} (holds : index.Holds (front ++ (id, value) :: back)) (change : Break → Break) :
    (index.modify id fun node => { node with value := change node.value }).Holds
      (front ++ (id, change value) :: back) := by
  obtain ⟨inFront, inBack, -⟩ := holds.apart
  obtain ⟨linkedFront, here, linkedBack⟩ := linked_append.mp holds.linked
  have others : ∀ slot, slot ≠ id →
      (index.modify id fun node => { node with value := change node.value }).node? slot =
        index.node? slot := by
    intro slot unlike
    rw [node?_modify, if_neg unlike]
  have ids : (front ++ (id, change value) :: back).map Prod.fst =
      (front ++ (id, value) :: back).map Prod.fst := by simp
  refine ⟨linked_append.mpr ⟨?_, ?_, ?_⟩, exists_starts holds.starts, ?_, ?_, ?_, ?_, ?_,
    holds.freeNodup⟩
  · exact linkedFront.congr fun entry member => others entry.1 (inFront entry member)
  · rw [node?_modify, if_pos rfl, here]
    rfl
  · exact linkedBack.congr fun entry member => others entry.1 (inBack entry member)
  · rw [ids]
    exact holds.nodup
  · have last := holds.last
    rw [lastId_append, lastId_cons] at last ⊢
    exact last
  · have size := holds.size
    rw [List.length_append, List.length_cons] at size ⊢
    exact size
  · intro slot live
    rw [ids]
    refine holds.live slot ?_
    rw [node?_modify] at live
    split at live
    · rwa [Option.isSome_map] at live
    · exact live
  · intro slot
    rw [size_nodes_modify, eq_none_of_modify]
    exact holds.free slot

theorem Holds.shiftChain_spec {index : BreakIndex} {front back : List Entry} {fuel : Nat}
    (distance : Int) (holds : index.Holds (front ++ back)) (enough : back.length ≤ fuel) :
    ∃ other, shiftChain distance fuel index (firstId back none) = .ok other ∧
      other.Holds (front ++ back.map (moveEntry distance)) := by
  induction back generalizing index front fuel with
  | nil =>
    refine ⟨index, ?_, holds⟩
    cases fuel <;> rfl
  | cons entry rest ih =>
    obtain ⟨id, value⟩ := entry
    cases fuel with
    | zero => cases enough
    | succ fuel =>
      have changed := holds.modifyValue fun value =>
        { value with position := shifted value.position distance }
      have moved : ∀ entry : Entry, front ++ entry :: rest = (front ++ [entry]) ++ rest := by simp
      rw [moved] at changed
      obtain ⟨other, went, holdsOther⟩ := ih changed (Nat.le_of_succ_le_succ enough)
      refine ⟨other, ?_, ?_⟩
      · rw [firstId_cons, shiftChain, holds.next_eq]
        exact went
      · rw [List.append_assoc] at holdsOther
        exact holdsOther

/-- **A break and every one after it move along with the text.** -/
theorem Holds.shiftFrom_spec {index : BreakIndex} {front back : List Entry} {id : BreakId}
    {value : Break} (distance : Int) (holds : index.Holds (front ++ (id, value) :: back))
    (small : ∀ entry ∈ (id, value) :: back, entry.2.position ≤ maxSize) :
    ∃ other, index.shiftFrom id distance = .ok other ∧
      other.Holds (front ++ ((id, value) :: back).map (moveEntry distance)) := by
  have bound := holds.length_le
  rw [List.length_append] at bound
  unfold shiftFrom
  by_cases none : distance = 0
  · rw [if_pos none]
    refine ⟨index, rfl, ?_⟩
    have stays : ∀ entry ∈ (id, value) :: back, moveEntry distance entry = entry := by
      intro entry member
      have fits := small entry member
      have position : shifted entry.2.position distance = entry.2.position := by
        unfold shifted
        omega
      unfold moveEntry
      rw [position]
    have same := (List.map_congr_left stays).trans (List.map_id' _)
    rw [same]
    exact holds
  · rw [if_neg none]
    exact holds.shiftChain_spec distance (show _ ≤ index.nodes.size + 1 by omega)

/-! ### A break in the place of others -/

/-- Where no break that is passed is left, the break is stored. -/
theorem Holds.setFrom_insert {index : BreakIndex} {front back : List Entry} {after : BreakId}
    {anchor value : Break} (holds : index.Holds (front ++ (after, anchor) :: back))
    (room : index.HasRoom) (behind : anchor.position ≤ value.position)
    (ahead : ∀ entry ∈ back.head?, value.position < entry.2.position) :
    ∃ id other, setFrom.insert after value index = .ok (.inserted id, other) ∧
      other.Holds (front ++ (after, anchor) :: (id, value) :: back) := by
  obtain ⟨id, other, inserted, holdsOther⟩ := holds.insertAfter_spec room behind
    fun entry member => (ahead entry member).le
  refine ⟨id, other, ?_, holdsOther⟩
  unfold setFrom.insert
  rw [inserted]
  rfl

theorem Holds.setFrom_spec {index : BreakIndex} {front back : List Entry} {after : BreakId}
    {anchor value : Break} {fuel : Nat} (allow : Bool)
    (holds : index.Holds (front ++ (after, anchor) :: back))
    (room : (∀ entry ∈ back.head?, value.position < entry.2.position) → index.HasRoom)
    (behind : anchor.position ≤ value.position) (enough : back.length < fuel) :
    ∃ passed rest result other, back = passed ++ rest ∧
      (∀ entry ∈ passed, entry.2.position ≤ value.position ∧ entry.2 ≠ value) ∧
      setFrom after value allow fuel index (firstId back none) = .ok (result, other) ∧
      ((∃ id further, rest = (id, value) :: further ∧
          result = (if allow then .fixedPoint id else .reused id) ∧
          other.Holds (front ++ (after, anchor) :: rest)) ∨
        ∃ id, (∀ entry ∈ rest.head?, value.position < entry.2.position) ∧
          result = .inserted id ∧
          other.Holds (front ++ (after, anchor) :: (id, value) :: rest)) := by
  induction back generalizing index fuel with
  | nil =>
    obtain ⟨id, other, inserted, holdsOther⟩ :=
      holds.setFrom_insert (room fun _ member => nomatch member) behind fun _ member => nomatch member
    refine ⟨[], [], .inserted id, other, rfl, (fun _ member => nomatch member), ?_,
      Or.inr ⟨id, (fun _ member => nomatch member), rfl, holdsOther⟩⟩
    cases fuel with
    | zero => cases enough
    | succ fuel =>
      rw [firstId_nil, setFrom]
      exact inserted
  | cons entry rest ih =>
    obtain ⟨next, old⟩ := entry
    cases fuel with
    | zero => cases enough
    | succ fuel =>
      have moved : ∀ tail, front ++ (after, anchor) :: (next, old) :: tail =
          (front ++ [(after, anchor)]) ++ (next, old) :: tail := by simp
      have atNext := holds
      rw [moved] at atNext
      rw [firstId_cons, setFrom, atNext.get_eq]
      by_cases ahead : value.position < old.position
      · have isAhead : ∀ entry ∈ ((next, old) :: rest).head?, value.position < entry.2.position := by
          intro entry member
          cases member
          exact ahead
        obtain ⟨id, other, inserted, holdsOther⟩ := holds.setFrom_insert (room isAhead) behind isAhead
        refine ⟨[], (next, old) :: rest, .inserted id, other, rfl,
          (fun _ member => nomatch member), ?_, Or.inr ⟨id, isAhead, rfl, holdsOther⟩⟩
        show (if value.position < old.position then _ else _) = _
        rw [if_pos ahead]
        exact inserted
      · by_cases met : old = value
        · refine ⟨[], (next, old) :: rest, _, index, rfl, (fun _ member => nomatch member), ?_,
            Or.inl ⟨next, rest, by rw [met], rfl, holds⟩⟩
          show (if value.position < old.position then _ else if old = value then _ else _) = _
          rw [if_neg ahead, if_pos met]
          rfl
        · -- The slot of the break that is passed will do for the new one.
          obtain ⟨removed, removes, holdsRemoved, roomRemoved⟩ := atNext.remove_spec (by simp)
          rw [List.append_assoc] at holdsRemoved
          obtain ⟨passed, kept, result, other, rfl, unlike, went, outcome⟩ :=
            ih holdsRemoved (fun _ => roomRemoved) (Nat.lt_of_succ_lt_succ enough)
          refine ⟨(next, old) :: passed, kept, result, other, rfl, ?_, ?_, outcome⟩
          · intro entry member
            rcases List.mem_cons.mp member with rfl | later
            · exact ⟨not_lt.mp ahead, met⟩
            · exact unlike entry later
          · show (if value.position < old.position then _ else if old = value then _ else _) = _
            rw [if_neg ahead, if_neg met, atNext.next_eq]
            show (do
              let index ← index.remove next
              setFrom after value allow fuel index (firstId (passed ++ kept) none)) = _
            rw [removes]
            exact went

/-- **A break that a scan has come to takes the place of the breaks it has passed.** If the same break
is among those that are not passed, it is kept with all that follow it; if not, the break is stored
before the ones behind it. There has to be room for it if none is passed. -/
theorem Holds.setBreak_spec {index : BreakIndex} {front back : List Entry} {after : BreakId}
    {anchor value : Break} (allow : Bool) (holds : index.Holds (front ++ (after, anchor) :: back))
    (room : (∀ entry ∈ back.head?, value.position < entry.2.position) → index.HasRoom)
    (behind : anchor.position ≤ value.position) :
    ∃ passed rest result other, back = passed ++ rest ∧
      (∀ entry ∈ passed, entry.2.position ≤ value.position ∧ entry.2 ≠ value) ∧
      index.setBreak after value allow = .ok (result, other) ∧
      ((∃ id further, rest = (id, value) :: further ∧
          result = (if allow then .fixedPoint id else .reused id) ∧
          other.Holds (front ++ (after, anchor) :: rest)) ∨
        ∃ id, (∀ entry ∈ rest.head?, value.position < entry.2.position) ∧
          result = .inserted id ∧
          other.Holds (front ++ (after, anchor) :: (id, value) :: rest)) := by
  have bound := holds.length_le
  rw [List.length_append, List.length_cons] at bound
  unfold setBreak
  rw [holds.next_eq]
  exact holds.setFrom_spec allow room behind (show _ < index.nodes.size + 1 by omega)

/-! ### What is kept step by step -/

section Keeps

variable {motive : BreakIndex → Prop} {index other : BreakIndex} {id : BreakId}
  {current : Option BreakId} {fuel : Nat}

section Removals

variable (remove : ∀ {index other : BreakIndex} {id : BreakId}, motive index →
  index.remove id = .ok other → motive other)
include remove

/-- What deleting a break keeps is kept where several are deleted. -/
theorem deleteFrom_keeps {stop : Option BreakId} (begins : motive index)
    (went : deleteFrom stop fuel index current = .ok other) : motive other := by
  induction fuel generalizing index current with
  | zero =>
    cases current with
    | none =>
      cases went
      exact begins
    | some id => cases went
  | succ fuel ih =>
    cases current with
    | none =>
      cases went
      exact begins
    | some id =>
      rw [deleteFrom] at went
      split at went
      · cases went
        exact begins
      · obtain ⟨next, -, went⟩ := Fault.bind_eq_ok.mp went
        obtain ⟨removed, removes, went⟩ := Fault.bind_eq_ok.mp went
        exact ih (remove begins removes) went

theorem deleteRange_keeps {start : BreakId} {stop : Option BreakId} (begins : motive index)
    (went : index.deleteRange start stop = .ok other) : motive other :=
  deleteFrom_keeps remove begins went

theorem truncateAfter_keeps (begins : motive index) (went : index.truncateAfter id = .ok other) :
    motive other := by
  obtain ⟨next, -, went⟩ := Fault.bind_eq_ok.mp went
  cases next with
  | none =>
    cases went
    exact begins
  | some next => exact deleteRange_keeps remove begins went

variable (final : BreakIndex → Prop) {after : BreakId} {value : Break} {allow : Bool} {result : SetBreak}
  (insert : ∀ {index other : BreakIndex} {id : BreakId}, motive index →
    index.insertAfter after value = .ok (id, other) → final other)
  (stay : ∀ {index : BreakIndex}, motive index → final index)
include insert stay

/-- Where a break takes the place of others, these are deleted first; then it is stored, or found. -/
theorem setFrom_keeps (begins : motive index)
    (went : setFrom after value allow fuel index current = .ok (result, other)) : final other := by
  have inserts : ∀ {index : BreakIndex}, motive index →
      setFrom.insert after value index = .ok (result, other) → final other := by
    intro index begins went
    obtain ⟨⟨id, stored⟩, inserted, went⟩ := Fault.bind_eq_ok.mp went
    cases went
    exact insert begins inserted
  induction fuel generalizing index current with
  | zero =>
    cases current with
    | none => exact inserts begins went
    | some id => cases went
  | succ fuel ih =>
    cases current with
    | none => exact inserts begins went
    | some id =>
      rw [setFrom] at went
      obtain ⟨old, -, went⟩ := Fault.bind_eq_ok.mp went
      split at went
      · exact inserts begins went
      · split at went
        · cases went
          exact stay begins
        · obtain ⟨next, -, went⟩ := Fault.bind_eq_ok.mp went
          obtain ⟨removed, removes, went⟩ := Fault.bind_eq_ok.mp went
          exact ih (remove begins removes) went

theorem setBreak_keeps (begins : motive index)
    (went : index.setBreak after value allow = .ok (result, other)) : final other := by
  obtain ⟨next, -, went⟩ := Fault.bind_eq_ok.mp went
  exact setFrom_keeps remove final insert stay begins went

end Removals

variable {distance : Int}
  (move : ∀ {index : BreakIndex} {id : BreakId} {next : Option BreakId}, motive index →
    index.next id = .ok next → motive (index.modify id fun node =>
      { node with value := { node.value with position := shifted node.value.position distance } }))
include move

/-- What moving a break keeps is kept where several are moved. -/
theorem shiftChain_keeps (begins : motive index)
    (went : shiftChain distance fuel index current = .ok other) : motive other := by
  induction fuel generalizing index current with
  | zero =>
    cases current with
    | none =>
      cases went
      exact begins
    | some id => cases went
  | succ fuel ih =>
    cases current with
    | none =>
      cases went
      exact begins
    | some id =>
      rw [shiftChain] at went
      obtain ⟨next, found, went⟩ := Fault.bind_eq_ok.mp went
      exact ih (move begins found) went

theorem shiftFrom_keeps (begins : motive index) (went : index.shiftFrom id distance = .ok other) :
    motive other := by
  unfold shiftFrom at went
  split at went
  · cases went
    exact begins
  · exact shiftChain_keeps move begins went

end Keeps

end Highlight.BreakIndex
