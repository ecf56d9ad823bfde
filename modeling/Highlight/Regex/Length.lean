/-
**How many characters a regex can match.**

The length of a part depends on the lengths of the groups it refers to, so lengths are found in
rounds, from "anything" on, until every chain of references has been followed:

* `Length.of`: bounds on the number of characters, given those of the groups;
* `groupLengths`: the bounds of every group;
* `isEndless`: whether a group calls itself on every way through it, or before anything is matched.
-/

import Highlight.Regex.References

namespace Highlight.Regex

/-- Bounds on a number of characters, and whether the lower one is met by some match wherever the
regex is tried. -/
structure Length where
  low : Nat
  /-- No bound if there is none. -/
  high : Option Nat
  sure : Bool
  deriving DecidableEq, Repr, Inhabited

namespace Length

/-- Exactly that many. -/
def exactly (count : Nat) : Length := ⟨count, some count, true⟩

/-- Any number. -/
def unknown : Length := ⟨0, none, false⟩

/-- None, but only at some places. -/
def place : Length := ⟨0, some 0, false⟩

/-- One after the other. -/
def add (first second : Length) : Length where
  low := first.low + second.low
  high := do return (← first.high) + (← second.high)
  sure := first.sure && second.sure

/-- One or the other. -/
def max (first second : Length) : Length where
  low := min first.low second.low
  high := do return Nat.max (← first.high) (← second.high)
  sure :=
    if second.low < first.low then second.sure
    else if second.low = first.low then first.sure || second.sure
    else first.sure

/-- Repeated between `low` and `high` times. -/
def times (length : Length) (low : Nat) (high : Option Nat) : Length where
  low := length.low * low
  high :=
    match length.high, high with
    | some 0, _ => some 0
    | some each, some count => some (each * count)
    | _, some 0 => some 0
    | _, _ => none
  sure := length.sure

/-- Bounds on the characters of a tree, given those of the groups. -/
def of (groups : Array Length) : Tree → Length
  | .empty => exactly 0
  | .char _ _ => exactly 1
  | .set _ => exactly 1
  | .any _ => exactly 1
  | .anchor _ => place
  | .seq items => sum items
  | .alt branches => oneOf branches
  | .times body low high _ => (of groups body).times low high
  | .group _ _ body => of groups body
  | .scope body => of groups body
  | .atomic body => of groups body
  | .look _ _ _ => place
  | .backRef numbers _ _ =>
    match numbers with
    | [] => unknown
    | first :: rest =>
      { rest.foldl (fun length number => length.max (groups.getD number unknown))
          (groups.getD first unknown) with sure := false }
  | .captured _ _ => place
  | .branch condition yes no =>
    ((of groups condition).add (of groups yes)).max (of groups no)
  | .call (.number number) => groups.getD number unknown
  | .call (.name _) => unknown
  | .keep => exactly 0
  | .absent _ => unknown
  | .segment => ⟨1, none, true⟩
where
  /-- Bounds for the trees one after the other. -/
  sum : List Tree → Length
    | [] => exactly 0
    | item :: rest => (of groups item).add (sum rest)
  /-- Bounds for one of the trees. -/
  oneOf : List Tree → Length
    | [] => exactly 0
    | [branch] => of groups branch
    | branch :: rest => (of groups branch).max (oneOf rest)

end Length

/-- Bounds on the characters of every group. -/
def groupLengths (bodies : Array Tree) : Array Length :=
  (List.range (bodies.size + 1)).foldl (fun lengths _ => bodies.map (Length.of lengths))
    (bodies.map fun _ => Length.unknown)

/-! ### Recursion -/

/-- What happens to a group within a tree: whether it is called at all, on every way, and before
anything is matched. -/
structure Recursion where
  some : Bool
  always : Bool
  first : Bool
  deriving DecidableEq

namespace Recursion

/-- No call. -/
def never : Recursion := ⟨false, false, false⟩

/-- How a tree calls `group`; `seen` are the groups entered on the way and `fuel` bounds the chains
of calls. -/
def of (bodies : Array Tree) (lengths : Array Length) (group : Nat) :
    (fuel : Nat) → (seen : List Nat) → (first : Bool) → Tree → Recursion
  | 0, _, _, _ => never
  | fuel + 1, seen, first, tree =>
    let enter (number : Nat) (body : Tree) : Recursion :=
      if number = group then ⟨true, true, first⟩
      else if seen.contains number then never
      else of bodies lengths group fuel (number :: seen) first body
    match tree with
    | .seq items =>
      (items.foldl (fun (found, first) item =>
        if found.first then (found, first)
        else
          let next := of bodies lengths group fuel seen first item
          (⟨found.some || next.some, found.always || next.always, next.first⟩,
            first && (Length.of lengths item).low == 0))
        (never, first)).1
    | .alt branches =>
      let found := branches.map (of bodies lengths group fuel seen first)
      ⟨found.any (·.some), found.all (·.always), found.any (·.first)⟩
    | .times body low high _ =>
      if high = Option.some 0 then never
      else
        let found := of bodies lengths group fuel seen first body
        ⟨found.some, found.always && low != 0, found.first⟩
    | .group number _ body => enter number body
    | .scope body => of bodies lengths group fuel seen first body
    | .atomic body => of bodies lengths group fuel seen first body
    | .absent body => of bodies lengths group fuel seen first body
    | .look _ _ body => of bodies lengths group fuel seen first body
    | .branch condition yes no =>
      let inCondition := of bodies lengths group fuel seen first condition
      let inYes := of bodies lengths group fuel seen first yes
      let inNo := of bodies lengths group fuel seen first no
      ⟨inCondition.some || inYes.some || inNo.some,
        inCondition.always || (inYes.always && inNo.always),
        inCondition.first || inYes.first || inNo.first⟩
    | .call (.number number) => enter number (bodies.getD number .empty)
    | _ => never

end Recursion

/-- Whether a group that is called can never be matched to its end. -/
def Parsed.isEndless (parsed : Parsed) : Bool :=
  let bodies := parsed.bodies
  let lengths := groupLengths bodies
  let parts := parsed.tree.parts
  let called := parts.filterMap fun
    | .call (.number number) => some number
    | _ => none
  let fuel := (parts.length + 1) * (bodies.size + 1)
  called.any fun number =>
    let found := Recursion.of bodies lengths number fuel [] true (bodies.getD number .empty)
    found.always || found.first

end Highlight.Regex
