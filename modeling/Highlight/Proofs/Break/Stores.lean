/-
**What is true of the stack of every break that is stored.**

An index makes no stacks of its own: it keeps those of the breaks that it is given. So whatever is asked
of those is true of all that it stores, in whatever way they are linked:

* `BreakIndex.Stores`, `BreakIndex.Stores.get`: every stored break has a stack that is asked for;
* `BreakIndex.Stores.insertAfter`: so it is with one more that has such a stack;
* `BreakIndex.Stores.deleteRange`, `BreakIndex.Stores.truncateAfter`, `BreakIndex.Stores.shiftFrom`: and
  with fewer of them, or with breaks that have moved;
* `BreakIndex.Stores.setBreak`: **and where a break takes the place of others**.
-/

import Highlight.Proofs.Break.Change

namespace Highlight.BreakIndex

/-- Every break that is stored has a stack that is asked for. -/
def Stores (index : BreakIndex) (asked : PatternStack → Prop) : Prop :=
  ∀ id node, index.node? id = some node → asked node.value.stack

variable {index after : BreakIndex} {asked : PatternStack → Prop}

theorem stores_initial (root : asked .root) : initial.Stores asked := by
  rintro (- | id) node here
  · cases here
    exact root
  · cases here

namespace Stores

variable (stores : index.Stores asked)
include stores

theorem get {id : BreakId} {value : Break} (found : index.get id = .ok value) : asked value.stack := by
  unfold BreakIndex.get BreakIndex.node at found
  obtain ⟨node, here, same⟩ := Fault.bind_eq_ok.mp found
  cases same
  split at here
  · rename_i inSlot
    cases here
    exact stores id node inSlot
  · cases here

/-- The slots alone decide what is stored. -/
theorem of_nodes {other : BreakIndex} (same : other.nodes = index.nodes) : other.Stores asked := by
  intro id node here
  unfold node? at here
  rw [same] at here
  exact stores id node here

/-- No stack changes where a node is changed otherwise. -/
theorem modify (id : BreakId) (change : BreakNode → BreakNode)
    (same : ∀ node, (change node).value.stack = node.value.stack) :
    (index.modify id change).Stores asked := by
  intro slot node here
  rw [node?_modify] at here
  split at here
  · obtain ⟨old, there, rfl⟩ := Option.map_eq_some_iff.mp here
    rw [same]
    exact stores slot old there
  · exact stores slot node here

theorem allocate {node : BreakNode} (holds : asked node.value.stack) :
    (index.allocate node).2.Stores asked := by
  intro slot other here
  unfold BreakIndex.allocate node? at here
  split at here
  · rw [Array.getElem?_setIfInBounds] at here
    split at here
    · split at here
      · cases here
        exact holds
      · cases here
    · exact stores slot other here
  · rw [Array.getElem?_push] at here
    split at here
    · cases here
      exact holds
    · exact stores slot other here

theorem insertAfter {before id : BreakId} {value : Break} (holds : asked value.stack)
    (went : index.insertAfter before value = .ok (id, after)) : after.Stores asked := by
  unfold BreakIndex.insertAfter at went
  obtain ⟨next, -, went⟩ := Fault.bind_eq_ok.mp went
  obtain ⟨place, -, went⟩ := Fault.bind_eq_ok.mp went
  dsimp only at went
  split at went
  · obtain ⟨_, failed, _⟩ := Fault.bind_eq_ok.mp went
    cases failed
  · have grown := stores.allocate
      (show asked (BreakNode.mk value (some before) next).value.stack from holds)
    generalize index.allocate ⟨value, some before, next⟩ = allocated at went grown
    obtain ⟨slot, larger⟩ := allocated
    have linked := grown.modify before (fun node => { node with next := some slot }) fun _ => rfl
    cases next with
    | none =>
      cases went
      exact linked.of_nodes rfl
    | some next =>
      obtain ⟨following, -, went⟩ := Fault.bind_eq_ok.mp went
      split at went
      · obtain ⟨_, failed, _⟩ := Fault.bind_eq_ok.mp went
        cases failed
      · cases went
        refine of_nodes (linked.modify next (fun node => { node with previous := some slot }) ?_) rfl
        exact fun _ => rfl

theorem remove {id : BreakId} (went : index.remove id = .ok after) : after.Stores asked := by
  unfold BreakIndex.remove at went
  dsimp only at went
  split at went
  · obtain ⟨_, failed, _⟩ := Fault.bind_eq_ok.mp went
    cases failed
  · obtain ⟨node, -, went⟩ := Fault.bind_eq_ok.mp went
    have emptied : Stores { index with nodes := index.nodes.setIfInBounds id none } asked := by
      intro slot other here
      rw [node?_emptied] at here
      split at here
      · cases here
      · exact stores slot other here
    obtain ⟨value, previous, next⟩ := node
    have linked : ∀ {other : BreakIndex}, other.Stores asked → ∀ slot,
        (other.modify slot fun node => { node with next := next }).Stores asked :=
      fun stores slot => stores.modify slot _ fun _ => rfl
    have linkedBack : ∀ {other : BreakIndex}, other.Stores asked → ∀ slot,
        (other.modify slot fun node => { node with previous := previous }).Stores asked :=
      fun stores slot => stores.modify slot _ fun _ => rfl
    rcases previous with - | before <;> rcases next with - | behind <;> cases went
    · exact emptied.of_nodes rfl
    · exact (linkedBack emptied behind).of_nodes rfl
    · exact (linked emptied before).of_nodes rfl
    · exact (linkedBack (linked emptied before) behind).of_nodes rfl

theorem deleteRange {start : BreakId} {stop : Option BreakId}
    (went : index.deleteRange start stop = .ok after) : after.Stores asked :=
  deleteRange_keeps (fun stores removed => remove stores removed) stores went

theorem truncateAfter {id : BreakId} (went : index.truncateAfter id = .ok after) :
    after.Stores asked :=
  truncateAfter_keeps (fun stores removed => remove stores removed) stores went

theorem shiftFrom {id : BreakId} {distance : Int} (went : index.shiftFrom id distance = .ok after) :
    after.Stores asked :=
  shiftFrom_keeps (motive := fun index => index.Stores asked)
    (fun {_ id _} stores _ => modify stores id _ fun _ => rfl) stores went

/-- **A break that is stored brings its stack and no other.** -/
theorem setBreak {before : BreakId} {value : Break} {allowFixedPoint : Bool} {outcome : SetBreak}
    (holds : asked value.stack)
    (went : index.setBreak before value allowFixedPoint = .ok (outcome, after)) :
    after.Stores asked :=
  setBreak_keeps (fun stores removed => remove stores removed) (fun stored => stored.Stores asked)
    (fun stores inserted => insertAfter stores holds inserted) id stores went

end Stores

end Highlight.BreakIndex
