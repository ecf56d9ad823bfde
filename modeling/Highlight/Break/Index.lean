/-
**An index of breaks in the order of their positions.**

The breaks are kept in slots and linked in both directions. A slot that is freed goes on a list, from
which it is taken before new slots are made. Numbers of slots have 32 bits; where more slots are made
the numbers begin again from zero. The break in slot zero, at the start of the text, is never deleted:

* `BreakIndex.insertAfter`, `BreakIndex.deleteRange`, `BreakIndex.shiftFrom`: the three changes,
  which all others are made of;
* `BreakIndex.seekBefore`: the last break at or before a position, found from a nearby one;
* `BreakIndex.setBreak`: stores the break that a scan has come to in the place of the old ones it
  has passed, or finds that the very same break was there already;
* `BreakIndex.toList`: the breaks in order, with their slots.

Walks along the links are bounded by the number of slots, which no walk exceeds as long as the links
form a chain.
-/

import Highlight.Break.Basic
import Highlight.Text.Change

namespace Highlight

/-- A break with its links. -/
structure BreakNode where
  value : Break
  previous : Option BreakId
  next : Option BreakId
  deriving DecidableEq, Inhabited

/-- An index of breaks. -/
structure BreakIndex where
  nodes : Array (Option BreakNode)
  /-- Slots without a break, the one freed last first. -/
  free : List BreakId
  last : BreakId
  size : Nat
  deriving DecidableEq, Inhabited

/-- What storing a break led to. -/
inductive SetBreak where
  /-- A new break was stored. -/
  | inserted (id : BreakId)
  /-- The same break was there, but what follows it cannot be relied on. -/
  | reused (id : BreakId)
  /-- The same break was there, and what follows it still holds. -/
  | fixedPoint (id : BreakId)
  deriving DecidableEq, Repr

namespace BreakIndex

/-- The slot of the break at the start of the text. -/
def first : BreakId := 0

/-- Number of slots that can be told apart. -/
def idRange : Nat := 0x100000000

/-- The index of the break at the start of the text alone. -/
def initial : BreakIndex := ⟨#[some ⟨Break.first, none, none⟩], [], first, 1⟩

/-- The node in a slot, if there is one. -/
def node? (index : BreakIndex) (id : BreakId) : Option BreakNode := (index.nodes[id]?).join

/-- Whether there is a break in a slot. -/
def contains (index : BreakIndex) (id : BreakId) : Bool := (index.node? id).isSome

/-- The node in a slot. -/
def node (index : BreakIndex) (id : BreakId) : Except Fault BreakNode :=
  match index.node? id with
  | some node => .ok node
  | none => .error (.deadBreak id)

/-- The break in a slot. -/
def get (index : BreakIndex) (id : BreakId) : Except Fault Break := do
  return (← index.node id).value

/-- The position of the break in a slot. -/
def position (index : BreakIndex) (id : BreakId) : Except Fault Nat := do
  return (← index.node id).value.position

/-- The break after one, if there is one. -/
def next (index : BreakIndex) (id : BreakId) : Except Fault (Option BreakId) := do
  return (← index.node id).next

/-- The break before one, if there is one. -/
def previous (index : BreakIndex) (id : BreakId) : Except Fault (Option BreakId) := do
  return (← index.node id).previous

/-- The break after one; there has to be one. -/
def moveNext (index : BreakIndex) (id : BreakId) : Except Fault BreakId := do
  match ← index.next id with
  | some next => return next
  | none => throw .movedPastLast

/-- The break before one; there has to be one. -/
def movePrevious (index : BreakIndex) (id : BreakId) : Except Fault BreakId := do
  match ← index.previous id with
  | some previous => return previous
  | none => throw .movedBeforeFirst

/-- Breaks from a slot on, in order, at most `fuel` of them. -/
def listFrom (index : BreakIndex) : (fuel : Nat) → Option BreakId → List (BreakId × Break)
  | 0, _ => []
  | _, none => []
  | fuel + 1, some id =>
    match index.node? id with
    | some node => (id, node.value) :: listFrom index fuel node.next
    | none => []

/-- All breaks in order, with their slots. -/
def toList (index : BreakIndex) : List (BreakId × Break) :=
  index.listFrom index.nodes.size (some first)

/-! ### Looking for a position -/

/-- The last break at or before a position, from one that is, going forward. -/
def seekForward (index : BreakIndex) (position : Nat) :
    (fuel : Nat) → BreakId → Except Fault BreakId
  | 0, _ => throw .stalled
  | fuel + 1, id => do
    match ← index.next id with
    | none => return id
    | some next =>
      if position < (← index.position next) then return id
      else seekForward index position fuel next

/-- The last break at or before a position, from one that may be behind it, going back. -/
def seekBackward (index : BreakIndex) (position : Nat) :
    (fuel : Nat) → BreakId → Except Fault BreakId
  | 0, _ => throw .stalled
  | fuel + 1, id => do
    if (← index.position id) ≤ position then return id
    else
      match ← index.previous id with
      | none => return id
      | some previous => seekBackward index position fuel previous

/-- The last break at or before a position. The walk begins at `hint`, or at the first break if there
is no break in that slot. -/
def seekBefore (index : BreakIndex) (hint : Option BreakId) (position : Nat) :
    Except Fault BreakId := do
  let start := match hint with
    | some id => if index.contains id then id else first
    | none => first
  if (← index.position start) ≤ position then
    index.seekForward position index.nodes.size start
  else index.seekBackward position index.nodes.size start

/-! ### Changes -/

/-- Changes the node in a slot. -/
def modify (index : BreakIndex) (id : BreakId) (change : BreakNode → BreakNode) : BreakIndex :=
  { index with nodes := index.nodes.modify id (Option.map change) }

/-- Puts a node into a free slot, or a new one if none is free. The number of a new slot is cut to what
numbers can tell apart. -/
def allocate (index : BreakIndex) (node : BreakNode) : BreakId × BreakIndex :=
  match index.free with
  | id :: free =>
    (id, { index with nodes := index.nodes.setIfInBounds id (some node), free := free })
  | [] => (index.nodes.size % idRange, { index with nodes := index.nodes.push (some node) })

/-- Stores a break right after another one. Positions must not get out of order. -/
def insertAfter (index : BreakIndex) (after : BreakId) (value : Break) :
    Except Fault (BreakId × BreakIndex) := do
  let next ← index.next after
  if value.position < (← index.position after) then throw .breakOrder
  match next with
  | none => pure ()
  | some next => if (← index.position next) < value.position then throw .breakOrder
  let (id, index) := index.allocate ⟨value, some after, next⟩
  let index := index.modify after fun node => { node with next := some id }
  let index := match next with
    | some next => index.modify next fun node => { node with previous := some id }
    | none => { index with last := id }
  return (id, { index with size := index.size + 1 })

/-- Deletes a break, which must not be the first. -/
def remove (index : BreakIndex) (id : BreakId) : Except Fault BreakIndex := do
  if id = first then throw .firstBreakDeleted
  let node ← index.node id
  let index := { index with nodes := index.nodes.setIfInBounds id none }
  let index := match node.previous with
    | some previous => index.modify previous fun before => { before with next := node.next }
    | none => index
  let index := match node.next with
    | some next => index.modify next fun after => { after with previous := node.previous }
    | none => { index with last := node.previous.getD first }
  return { index with free := id :: index.free, size := index.size - 1 }

/-- Deletes the breaks from `current` on up to `stop`, which stays, or up to the end. -/
def deleteFrom (stop : Option BreakId) :
    (fuel : Nat) → BreakIndex → Option BreakId → Except Fault BreakIndex
  | _, index, none => return index
  | 0, _, _ => throw .stalled
  | fuel + 1, index, some id => do
    if some id = stop then return index
    let next ← index.next id
    deleteFrom stop fuel (← index.remove id) next

/-- Deletes the breaks from `start` on up to `stop`, which stays, or up to the end. -/
def deleteRange (index : BreakIndex) (start : BreakId) (stop : Option BreakId) :
    Except Fault BreakIndex :=
  deleteFrom stop (index.nodes.size + 1) index (some start)

/-- Deletes every break after one. -/
def truncateAfter (index : BreakIndex) (id : BreakId) : Except Fault BreakIndex := do
  match ← index.next id with
  | some next => index.deleteRange next none
  | none => return index

/-- Moves the breaks from `current` on by a distance. -/
def shiftChain (distance : Int) :
    (fuel : Nat) → BreakIndex → Option BreakId → Except Fault BreakIndex
  | _, index, none => return index
  | 0, _, _ => throw .stalled
  | fuel + 1, index, some id => do
    let next ← index.next id
    let move (node : BreakNode) : BreakNode :=
      { node with value :=
        { node.value with position := shifted node.value.position distance } }
    shiftChain distance fuel (index.modify id move) next

/-- Moves a break and every one after it by a distance. -/
def shiftFrom (index : BreakIndex) (id : BreakId) (distance : Int) : Except Fault BreakIndex :=
  if distance = 0 then .ok index
  else shiftChain distance (index.nodes.size + 1) index (some id)

/-- Stores `value` after `after` in the place of the breaks from `current` on that are not behind it;
the first of these that is the same break is kept, with all that follow it. -/
def setFrom (after : BreakId) (value : Break) (allowFixedPoint : Bool) :
    (fuel : Nat) → BreakIndex → Option BreakId → Except Fault (SetBreak × BreakIndex)
  | 0, _, some _ => throw .stalled
  | _, index, none => insert index
  | fuel + 1, index, some id => do
    let old ← index.get id
    if value.position < old.position then insert index
    else if old = value then
      return (if allowFixedPoint then .fixedPoint id else .reused id, index)
    else
      let next ← index.next id
      setFrom after value allowFixedPoint fuel (← index.remove id) next
where
  /-- Stores the break as a new one. -/
  insert (index : BreakIndex) : Except Fault (SetBreak × BreakIndex) := do
    let (id, index) ← index.insertAfter after value
    return (.inserted id, index)

/-- Stores the break a scan has come to after `after`. Old breaks that the scan has passed are
deleted; the same break, if it is there, is kept, which is a fixed point only where that is
allowed. -/
def setBreak (index : BreakIndex) (after : BreakId) (value : Break) (allowFixedPoint : Bool) :
    Except Fault (SetBreak × BreakIndex) := do
  setFrom after value allowFixedPoint (index.nodes.size + 1) index (← index.next after)

end BreakIndex

end Highlight
