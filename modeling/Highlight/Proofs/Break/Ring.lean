/-
**Where the numbers of slots begin again from zero.**

In an index with as many breaks as there are numbers the slot that is made for one more is given the
number of the first. If that break is stored behind the last one then the links go round, and there is no
way back to a chain:

* `BreakIndex.Ring`: the breaks of a list are linked in a circle;
* `BreakIndex.Holds.ring_of_setBreak`: a full index becomes one when a break is stored at its end;
* `BreakIndex.Ring.setBreak_met`: the break next to the first may be met, and all stays as it is;
* `BreakIndex.Ring.setBreak_ne_ok`, `BreakIndex.Ring.truncateAfter_ne_ok`: **who goes round comes to the
  first break, which is never deleted**.
-/

import Highlight.Proofs.Break.Change

namespace Highlight.BreakIndex

variable {index other : BreakIndex} {rest : List Entry} {id after : BreakId} {anchor value : Break}

/-- The break at the start of the text and some others are linked with each other, and the last of them
with the first slot. -/
structure Ring (index : BreakIndex) (rest : List Entry) : Prop where
  linked : ∃ before, index.Linked before ((first, Break.first) :: rest) (some first)
  nodup : (((first, Break.first) :: rest).map Prod.fst).Nodup

/-- **The links of a full index go round when a break is stored behind the last one.** -/
theorem Holds.ring_of_insertAfter {front : List Entry}
    (holds : index.Holds (front ++ [(after, anchor)]))
    (starts : front ++ [(after, anchor)] = (first, Break.first) :: rest)
    (full : index.nodes.size = idRange) (packed : index.free = [])
    (behind : anchor.position ≤ value.position) :
    ∃ other, index.insertAfter after value = .ok (first, other) ∧ other.Ring rest ∧
      other.last = first ∧ other.nodes.size = idRange + 1 := by
  have number : index.nodes.size % idRange = first := by
    rw [full]
    exact Nat.mod_self _
  have ordered : ¬ value.position < anchor.position := not_lt.mpr behind
  have inFront := holds.apart.1
  have lower : ∀ entry ∈ front ++ [(after, anchor)], entry.1 ≠ index.nodes.size := by
    intro entry member
    obtain ⟨before, back, split⟩ := exists_split member
    rw [split] at holds
    exact (lt_size_of_node? holds.node?_eq).ne
  have linked := holds.linked
  have nodup := holds.nodup
  refine ⟨{ (modify { index with
      nodes := index.nodes.push (some ⟨value, some after, none⟩) } after
      fun node => { node with next := some first }) with last := first, size := index.size + 1 },
    ?_, ⟨⟨none, ?_⟩, starts ▸ nodup⟩, rfl, ?_⟩
  · unfold insertAfter allocate
    simp only [holds.next_eq, holds.position_eq, firstId_nil, Fault.ok_bind, ordered, if_false,
      packed, number]
    rfl
  · rw [← starts]
    refine linked.setBehind (fun entry member => ?_) ?_
    · have unlike : entry.1 ≠ after := inFront entry member
      have old : entry.1 ≠ index.nodes.size := lower entry (List.mem_append_left _ member)
      show node? (modify _ after _) entry.1 = _
      rw [node?_modify, if_neg unlike]
      exact (node?_pushed index _ entry.1).trans (if_neg old)
    · have old : after ≠ index.nodes.size := lower (after, anchor) (by simp)
      show node? (modify _ after _) after = _
      rw [node?_modify, if_pos rfl]
      exact congrArg (Option.map _) ((node?_pushed index _ after).trans (if_neg old))
  · show (modify _ after _).nodes.size = _
    rw [size_nodes_modify, Array.size_push, full]

theorem Holds.ring_of_setBreak {front : List Entry} (holds : index.Holds (front ++ [(after, anchor)]))
    (starts : front ++ [(after, anchor)] = (first, Break.first) :: rest)
    (full : index.nodes.size = idRange) (packed : index.free = [])
    (behind : anchor.position ≤ value.position) (restarted : Bool) :
    ∃ other, index.setBreak after value restarted = .ok (.inserted first, other) ∧ other.Ring rest ∧
      other.last = first ∧ other.nodes.size = idRange + 1 := by
  obtain ⟨other, inserted, ring⟩ := holds.ring_of_insertAfter starts full packed behind
  refine ⟨other, ?_, ring⟩
  unfold setBreak
  rw [holds.next_eq, firstId_nil]
  show setFrom.insert _ _ _ = _
  unfold setFrom.insert
  rw [inserted]
  rfl

namespace Ring

theorem node?_first (ring : index.Ring rest) :
    ∃ before, index.node? first = some ⟨Break.first, before, firstId rest (some first)⟩ := by
  obtain ⟨before, linked⟩ := ring.linked
  exact ⟨before, linked.1⟩

theorem next_eq (ring : index.Ring rest) : index.next first = .ok (firstId rest (some first)) := by
  obtain ⟨before, here⟩ := ring.node?_first
  unfold next node
  rw [here]
  rfl

theorem position_first (ring : index.Ring rest) : index.position first = .ok 0 := by
  obtain ⟨before, here⟩ := ring.node?_first
  unfold position node
  rw [here]
  rfl

theorem get_first (ring : index.Ring rest) : index.get first = .ok Break.first := by
  obtain ⟨before, here⟩ := ring.node?_first
  unfold get node
  rw [here]
  rfl

theorem node?_eq (ring : index.Ring ((id, value) :: rest)) :
    index.node? id = some ⟨value, some first, firstId rest (some first)⟩ := by
  obtain ⟨before, linked⟩ := ring.linked
  exact linked.2.1

theorem get_eq (ring : index.Ring ((id, value) :: rest)) : index.get id = .ok value := by
  unfold get node
  rw [ring.node?_eq]
  rfl

theorem nextOf_eq (ring : index.Ring ((id, value) :: rest)) :
    index.next id = .ok (firstId rest (some first)) := by
  unfold next node
  rw [ring.node?_eq]
  rfl

theorem position_eq (ring : index.Ring ((id, value) :: rest)) :
    index.position id = .ok value.position := by
  unfold position node
  rw [ring.node?_eq]
  rfl

theorem ne_first (ring : index.Ring rest) {entry : Entry} (member : entry ∈ rest) :
    entry.1 ≠ first := by
  have nodup := ring.nodup
  rw [List.map_cons, List.nodup_cons] at nodup
  exact fun same => nodup.1 (List.mem_map.mpr ⟨entry, member, same⟩)

/-- The break next to the first may be deleted. -/
theorem remove_spec (ring : index.Ring ((id, value) :: rest)) :
    ∃ other, index.remove id = .ok other ∧ other.Ring rest := by
  have notFirst : id ≠ first := ring.ne_first List.mem_cons_self
  obtain ⟨before, atFirst, here, linked⟩ := ring.linked
  have nodup := ring.nodup
  simp only [List.map_cons, List.nodup_cons, List.mem_cons, not_or] at nodup
  obtain ⟨⟨-, fresh⟩, unlike, nodupRest⟩ := nodup
  -- The slots that the removal touches are `id`, the first one, and the one that comes next.
  obtain ⟨next, nextIs⟩ : ∃ next, firstId rest (some first) = some next := by
    cases rest <;> exact ⟨_, rfl⟩
  have nodes : ∀ slot, ((modify { index with nodes := index.nodes.setIfInBounds id none } first
      fun node => { node with next := some next }).modify next
        fun node => { node with previous := some first }).node? slot =
      if slot = id then none else
        let node := if slot = first then
            (index.node? slot).map fun node => { node with next := some next }
          else index.node? slot
        if slot = next then node.map fun node => { node with previous := some first } else node := by
    intro slot
    rw [node?_modify, node?_modify, node?_emptied]
    by_cases isId : slot = id
    · simp [isId]
    · simp only [isId, if_false]
  refine ⟨{ ((modify { index with nodes := index.nodes.setIfInBounds id none } first
      fun node => { node with next := some next }).modify next
        fun node => { node with previous := some first }) with
      free := id :: index.free, size := index.size - 1 }, ?_, ?_, ?_⟩
  · unfold remove node
    simp only [notFirst, if_false, here, nextIs, Fault.ok_bind]
    rfl
  · cases rest with
    | nil =>
      cases nextIs
      refine ⟨some first, ?_, trivial⟩
      refine (nodes first).trans ?_
      rw [if_neg notFirst.symm]
      simp [atFirst]
    | cons entry rest =>
      obtain ⟨second, following⟩ := entry
      cases nextIs
      have notSecond : second ≠ first := fun same => fresh (by simp [same])
      have notId : second ≠ id := fun same => unlike (by simp [same])
      obtain ⟨atSecond, linked⟩ := linked
      refine ⟨before, ?_, ?_, ?_⟩
      · refine (nodes first).trans ?_
        rw [if_neg notFirst.symm]
        simp [atFirst, notSecond.symm]
      · refine (nodes second).trans ?_
        rw [if_neg notId]
        simp [atSecond, notSecond]
      · refine linked.congr fun entry member => (nodes entry.1).trans ?_
        have later : entry.1 ∈ rest.map Prod.fst := List.mem_map_of_mem member
        have notFirstToo : entry.1 ≠ first := fun same => fresh (by simp [← same, later])
        have notIdToo : entry.1 ≠ id := fun same => unlike (by simp [← same, later])
        have notNext : entry.1 ≠ second := fun same =>
          (List.nodup_cons.mp nodupRest).1 (same ▸ later)
        rw [if_neg notIdToo]
        simp [notFirstToo, notNext]
  · rw [List.map_cons, List.nodup_cons]
    exact ⟨fresh, nodupRest⟩

/-- Deleting from the break next to the first on goes round, and is refused at the first. -/
theorem deleteFrom_ne_ok (ring : index.Ring rest) (fuel : Nat) :
    deleteFrom none fuel index (firstId rest (some first)) ≠ .ok other := by
  induction rest generalizing index fuel with
  | nil =>
    intro went
    cases fuel with
    | zero => cases went
    | succ fuel =>
      rw [firstId_nil, deleteFrom, if_neg (Option.some_ne_none first), ring.next_eq] at went
      cases went
  | cons entry rest ih =>
    obtain ⟨id, value⟩ := entry
    intro went
    cases fuel with
    | zero => cases went
    | succ fuel =>
      obtain ⟨fewer, removed, ringFewer⟩ := ring.remove_spec
      rw [firstId_cons, deleteFrom, if_neg (Option.some_ne_none id), ring.nextOf_eq, Fault.ok_bind,
        removed] at went
      exact ih ringFewer fuel went

/-- **The breaks behind the first cannot be deleted.** -/
theorem truncateAfter_ne_ok (ring : index.Ring rest) : index.truncateAfter first ≠ .ok other := by
  unfold truncateAfter
  rw [ring.next_eq]
  cases rest with
  | nil => exact ring.deleteFrom_ne_ok _
  | cons entry rest => exact ring.deleteFrom_ne_ok _

/-- **The break next to the first one is met**, and nothing changes. -/
theorem setBreak_met (ring : index.Ring ((id, value) :: rest)) :
    index.setBreak first value true = .ok (.fixedPoint id, index) := by
  unfold setBreak
  rw [ring.next_eq, firstId_cons]
  show setFrom first value true (index.nodes.size + 1) index (some id) = _
  rw [setFrom, ring.get_eq]
  simp only [Fault.ok_bind, lt_irrefl, if_false, if_true]
  rfl

theorem setFrom_ne_ok {result : SetBreak} {allow : Bool} (ring : index.Ring rest)
    (unlike : ∀ entry ∈ rest, entry.2.position ≤ value.position ∧ entry.2 ≠ value)
    (further : 0 < value.position) (fuel : Nat) :
    setFrom first value allow fuel index (firstId rest (some first)) ≠ .ok (result, other) := by
  induction rest generalizing index fuel with
  | nil =>
    intro went
    cases fuel with
    | zero => cases went
    | succ fuel =>
      have notFirst : Break.first ≠ value := fun same => further.ne (congrArg Break.position same)
      have notBefore : ¬ value.position < Break.first.position := Nat.not_lt_zero _
      rw [firstId_nil, setFrom, ring.get_first] at went
      simp only [Fault.ok_bind, notBefore, notFirst, if_false, ring.next_eq] at went
      cases went
  | cons entry rest ih =>
    obtain ⟨id, old⟩ := entry
    intro went
    cases fuel with
    | zero => cases went
    | succ fuel =>
      obtain ⟨passed, unmet⟩ := unlike (id, old) List.mem_cons_self
      obtain ⟨fewer, removed, ringFewer⟩ := ring.remove_spec
      rw [firstId_cons, setFrom, ring.get_eq] at went
      simp only [Fault.ok_bind, not_lt.mpr passed, unmet, if_false, ring.nextOf_eq, removed] at went
      exact ih ringFewer (fun entry member => unlike entry (List.mem_cons_of_mem _ member)) fuel went

/-- **No break can be stored that is behind all others**, and is none of them. -/
theorem setBreak_ne_ok {result : SetBreak} {allow : Bool} (ring : index.Ring rest)
    (unlike : ∀ entry ∈ rest, entry.2.position ≤ value.position ∧ entry.2 ≠ value)
    (further : 0 < value.position) : index.setBreak first value allow ≠ .ok (result, other) := by
  unfold setBreak
  rw [ring.next_eq]
  exact ring.setFrom_ne_ok unlike further _

/-- Going on from some linked breaks leads to what is behind them. -/
theorem listFrom_append {before behind : Option BreakId} {entries : List Entry}
    (linked : index.Linked before entries behind) (fuel : Nat) :
    index.listFrom (entries.length + fuel) (firstId entries behind) =
      entries ++ index.listFrom fuel behind := by
  induction entries generalizing before with
  | nil => rw [List.length_nil, Nat.zero_add, firstId_nil, List.nil_append]
  | cons entry rest ih =>
    obtain ⟨id, value⟩ := entry
    rw [List.length_cons, Nat.succ_add, firstId_cons, listFrom, linked.1]
    simp only
    rw [ih linked.2, List.cons_append]

/-- The list of the breaks goes round once, and comes to the first again where there is one slot more. -/
theorem toList_eq (ring : index.Ring rest) (slots : index.nodes.size = rest.length + 2) :
    index.toList = (first, Break.first) :: rest ++ [(first, Break.first)] := by
  obtain ⟨before, linked⟩ := ring.linked
  have round := listFrom_append linked 1
  unfold toList
  rw [slots]
  refine round.trans (congrArg _ ?_)
  rw [listFrom, linked.1]
  cases firstId rest (some first) <;> rfl

end Ring

end Highlight.BreakIndex
