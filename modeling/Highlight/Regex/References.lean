/-
**References between the groups of a regex.**

Back references and calls name groups. Where there are named groups, unnamed ones do not capture and
groups can be meant by name only:

* `Parsed.renumbered`: unnamed groups beside named ones are dissolved and the rest is numbered
  anew;
* `Parsed.checkBackRefs`, `Parsed.resolveCalls`: every group that is meant exists;
* `Parsed.bodies`: what each group holds, the whole regex being group zero.
-/

import Highlight.Regex.Parse

namespace Highlight.Regex

namespace Tree

/-- Transforms a tree from its leaves up. -/
def transform {ε : Type} (change : Tree → Except ε Tree) : Tree → Except ε Tree
  | seq items => do change (.seq (← all items))
  | alt branches => do change (.alt (← all branches))
  | times body low high greedy => do change (.times (← transform change body) low high greedy)
  | group number named body => do change (.group number named (← transform change body))
  | scope body => do change (.scope (← transform change body))
  | atomic body => do change (.atomic (← transform change body))
  | look behind negated body => do change (.look behind negated (← transform change body))
  | branch condition yes no => do
    change (.branch (← transform change condition) (← transform change yes) (← transform change no))
  | absent body => do change (.absent (← transform change body))
  | leaf => change leaf
where
  /-- Transforms each tree of a list. -/
  all : List Tree → Except ε (List Tree)
    | [] => return []
    | item :: rest => do return (← transform change item) :: (← all rest)

/-- All parts of a tree, itself first. -/
def parts : Tree → List Tree
  | seq items => .seq items :: all items
  | alt branches => .alt branches :: all branches
  | times body low high greedy => .times body low high greedy :: body.parts
  | group number named body => .group number named body :: body.parts
  | scope body => .scope body :: body.parts
  | atomic body => .atomic body :: body.parts
  | look behind negated body => .look behind negated body :: body.parts
  | branch condition yes no =>
    .branch condition yes no :: (condition.parts ++ yes.parts ++ no.parts)
  | absent body => .absent body :: body.parts
  | leaf => [leaf]
where
  /-- All parts of the trees of a list. -/
  all : List Tree → List Tree
    | [] => []
    | item :: rest => item.parts ++ all rest

/-- The groups of a tree, with what they hold. -/
def groups (tree : Tree) : List (Nat × Tree) :=
  tree.parts.filterMap fun
    | group number _ body => some (number, body)
    | _ => none

end Tree

/-- The numbers of the named groups of a tree, in order. -/
def namedNumbers (tree : Tree) : List Nat :=
  tree.parts.filterMap fun
    | .group number true _ => some number
    | _ => none

/-- Dissolves an unnamed group and gives a part that means groups their new numbers. -/
def renumberPart (numbers : List Nat) : Tree → Except Cause Tree
  | .group number named body =>
    return if named then .group (numbers.idxOf number + 1) true body else body
  | .times (.times body innerLow innerHigh innerGreedy) low high greedy =>
    return Tree.timesTimes body innerLow innerHigh innerGreedy low high greedy
  | .backRef groups byName ignoreCase => do
    if ¬ byName then throw .numberedReference
    return .backRef (groups.map fun group => numbers.idxOf group + 1) byName ignoreCase
  | .captured groups byName => do
    if ¬ byName then throw .numberedReference
    return .captured (groups.map fun group => numbers.idxOf group + 1) byName
  | tree => return tree

/-- Where there are named groups, dissolves the unnamed ones and numbers the named ones anew. -/
def Parsed.renumbered (parsed : Parsed) : Except Cause Parsed := do
  if parsed.namedGroups = 0 ∨ parsed.captureAll then return parsed
  let numbers := namedNumbers parsed.tree
  let tree ← parsed.tree.transform (renumberPart numbers)
  return { parsed with
    tree := tree
    groups := numbers.length
    names := parsed.names.map fun (name, groups) =>
      (name, groups.map fun group => numbers.idxOf group + 1) }

/-- Refuses back references to groups that there are not. -/
def Parsed.checkBackRefs (parsed : Parsed) : Except Cause Unit := do
  let known (groups : List Nat) : Bool := groups.all (· ≤ parsed.groups)
  let fine := parsed.tree.parts.all fun
    | .backRef groups _ _ => known groups
    | .captured groups _ => known groups
    | _ => true
  if ¬ fine then throw .backReference

/-- Gives a call the number of the group it means. -/
def Parsed.resolveCall (parsed : Parsed) : Tree → Except Cause Tree
  | .call (.number number) => do
    if parsed.namedGroups > 0 ∧ ¬ parsed.captureAll then throw .numberedReference
    if number > parsed.groups then throw (.undefinedGroup (toString number))
    return .call (.number number)
  | .call (.name name) =>
    match parsed.names.find? fun entry => entry.1 == name with
    | none => throw (.undefinedName name)
    | some (_, [number]) => return .call (.number number)
    | some _ => throw (.ambiguousCall name)
  | tree => return tree

/-- Gives every call the number of the group it means. -/
def Parsed.resolveCalls (parsed : Parsed) : Except Cause Parsed := do
  return { parsed with tree := ← parsed.tree.transform parsed.resolveCall }

/-- What the groups hold, by number; the whole regex is number zero. -/
def Parsed.bodies (parsed : Parsed) : Array Tree :=
  let groups := parsed.tree.groups
  (Array.range (parsed.groups + 1)).map fun number =>
    if number = 0 then parsed.tree
    else match groups.find? fun entry => entry.1 == number with
      | some (_, body) => body
      | none => .empty

end Highlight.Regex
