/-
**Regexes in the form in which they are matched.**

A `Node` says step by step what is to be matched. It differs from the tree of a regex in that
literals are bytes, case is resolved, and each repetition says how it is carried out:

* a short repetition is written out, a longer one counts its turns;
* a repetition whose body can match nothing ends after a turn that matched nothing (`EmptyCheck`);
* `Lowering.node`: the form of a tree; `Program.ofParsed`: that of a regex and its groups.
-/

import Highlight.Regex.Length

namespace Highlight.Regex

/-- A test of one character. -/
inductive OneChar where
  | set (table : CharTable)
  | any
  | notLineFeed

/-- What ends a repetition whose body can match nothing. -/
inductive EmptyCheck where
  /-- The body always matches something. -/
  | none
  /-- A turn that matched nothing. -/
  | position
  /-- A turn that matched nothing and left these groups as they were. -/
  | captures (groups : List Nat)

/-- What is to be matched. -/
inductive Node where
  | empty
  | fail
  | bytes (bytes : ByteArray)
  | one (test : OneChar)
  /-- As many characters as there are, fewer if that fails. -/
  | run (test : OneChar)
  | anchor (anchor : Anchor)
  | seq (first second : Node)
  /-- The first, or else the second. -/
  | alt (first second : Node)
  /-- Any number of turns, one at least if so wished. -/
  | loop (body : Node) (greedy : Bool) (check : EmptyCheck) (atLeastOnce : Bool)
  /-- A number of turns that is counted. -/
  | count (body : Node) (low : Nat) (high : Option Nat) (greedy : Bool) (check : EmptyCheck)
  | group (number : Nat) (body : Node)
  | atomic (body : Node)
  | ahead (negated : Bool) (body : Node)
  /-- What ends here and is between `low` and `high` characters long. -/
  | behind (negated : Bool) (low : Nat) (high : Option Nat) (body : Node)
  | backRef (groups : List Nat) (ignoreCase : Bool)
  | captured (groups : List Nat)
  | branch (condition yes no : Node)
  | call (group : Nat)
  | keep
  | absent (body : Node)
  | segment

namespace Tree

/-- Number of steps that count for whether a repetition is written out. -/
def cost : Tree → Nat
  | empty => 0
  | char _ _ => 1
  | set _ => 1
  | any _ => 1
  | anchor _ => 1
  | seq items => sum items 0
  | alt branches => total branches + 2 * (branches.length - 1)
  | times body low high greedy => repeated body (cost body) low high greedy
  | group _ _ body => cost body + 2
  | scope body => cost body
  | atomic body => cost body + 2
  | look false false body => cost body + 2
  | look false true body => cost body + 5
  | look true false body => cost body + 3
  | look true true body => cost body + 6
  | backRef _ _ _ => 1
  | captured _ _ => 1
  | branch condition yes no => cost condition + cost yes + cost no + 4
  | call _ => 1
  | keep => 1
  | absent body => cost body + 7
  | segment => 1
where
  /-- Steps of a sequence; neighbouring characters of one length in bytes are one step. -/
  sum : List Tree → (last : Nat) → Nat
    | [], _ => 0
    | char code ignoreCase :: rest, last =>
      let length := if ignoreCase then 0 else (Char.ofNat code).utf8Size
      (if length = last ∧ length ≠ 0 then 0 else 1) + sum rest length
    | item :: rest, _ => cost item + sum rest 0
  /-- Steps of the trees of a list. -/
  total : List Tree → Nat
    | [] => 0
    | item :: rest => cost item + total rest
  /-- Steps of a repetition. -/
  repeated (body : Tree) (each low : Nat) (high : Option Nat) (greedy : Bool) : Nat :=
    if each = 0 then 0
    else match high with
      | none =>
        match body, greedy with
        | any _, true => each * low + 1
        | _, _ =>
          if low ≤ 1 ∨ each * low ≤ 10 then
            (if low = 1 ∧ each > 10 then 1 else each * low) + each + 2
          else each + 2
      | some 0 => 0
      | some high =>
        if greedy ∧ (high = 1 ∨ (each + 1) * high ≤ 10) then each * low + (each + 1) * (high - low)
        else if ¬ greedy ∧ low = 0 ∧ high = 1 then each + 2
        else each + 2

end Tree

namespace Lowering

/-- What lowering needs to know of the whole regex: the lengths of its groups and how often each
group is referred to. -/
structure Context where
  lengths : Array Length
  references : Nat → Nat
  /-- Whether a group is called. -/
  isCalled : Nat → Bool

/-- How often a group is referred to in a tree. -/
def countReferences (tree : Tree) (group : Nat) : Nat :=
  (tree.parts.map fun
    | .backRef groups _ _ => groups.count group
    | .captured groups _ => groups.count group
    | _ => 0).foldr (· + ·) 0

/-- One node after the other. -/
def sequence : List Node → Node
  | [] => .empty
  | [node] => node
  | node :: rest => .seq node (sequence rest)

/-- The groups of a body that no inner repetition of something that can be empty holds. -/
def ownGroups (lengths : Array Length) : Tree → List Nat
  | .seq items => all items
  | .alt branches => all branches
  | .times body _ high _ =>
    if (Length.of lengths body).low = 0 ∧ high ≠ some 0 then [] else ownGroups lengths body
  | .group number _ body => number :: ownGroups lengths body
  | .scope body => ownGroups lengths body
  | .atomic body => ownGroups lengths body
  | .look _ _ body => ownGroups lengths body
  | .branch condition yes no =>
    ownGroups lengths condition ++ ownGroups lengths yes ++ ownGroups lengths no
  | .absent body => ownGroups lengths body
  | _ => []
where
  /-- Those of the trees of a list. -/
  all : List Tree → List Nat
    | [] => []
    | item :: rest => ownGroups lengths item ++ all rest

/-- How a repetition of a body has to look out for turns that match nothing. -/
def emptyCheck (context : Context) (body : Tree) : EmptyCheck :=
  if (Length.of context.lengths body).low ≠ 0 then .none
  else
    match (ownGroups context.lengths body).filter fun group =>
        context.references group > countReferences body group with
    | [] => .position
    | groups => .captures groups

/-- A repetition of a body that is already lowered. -/
def repetition (node : Node) (tree : Tree) (check : EmptyCheck) (low : Nat) (high : Option Nat)
    (greedy : Bool) : Node :=
  let each := tree.cost
  let copies (count : Nat) : List Node := List.replicate count node
  if each = 0 then .empty
  else match high with
    | none =>
      if low ≤ 1 ∨ each * low ≤ 10 then
        match node, greedy with
        | .one test, true => sequence (copies low ++ [.run test])
        | _, _ =>
          if low = 1 ∧ each > 10 then .loop node greedy check true
          else sequence (copies low ++ [.loop node greedy check false])
      else .count node low none greedy check
    | some 0 => .empty
    | some high =>
      if greedy ∧ (high = 1 ∨ (each + 1) * high ≤ 10) then
        let optional := (List.range (high - low)).foldl
          (fun rest _ => Node.alt (sequence (if rest matches .empty then [node] else [node, rest]))
            .empty) Node.empty
        sequence (copies low ++ if high = low then [] else [optional])
      else if ¬ greedy ∧ low = 0 ∧ high = 1 then .alt .empty node
      else .count node low (some high) greedy check

/-- The bytes of a character. -/
def charBytes (code : Nat) : ByteArray :=
  if code < 0x110000 then (String.singleton (Char.ofNat code)).toUTF8
  else
    let low (shift : Nat) : UInt8 := UInt8.ofNat (0x80 + (code >>> shift) % 64)
    ⟨#[UInt8.ofNat (0xF0 + (code >>> 18)), low 12, low 6, low 0]⟩

/-- A character up to case. -/
def foldedChar (code : Nat) : Node :=
  match (Unicode.Fold.equivalents code).eraseDups with
  | [single] => .bytes (charBytes single)
  | codes =>
    .one (.set (.ofSet (codes.foldl (fun set code => .union set (.range code code)) .none)))

/-- The character that a list of characters, in front, amounts to up to case. -/
def contraction? (codes : List Nat) : Option (List Nat × List Nat) :=
  let folded := codes.map Unicode.Fold.simple
  match Unicode.Fold.expansions.filter fun entry => entry.2.isPrefixOf folded with
  | [] => none
  | found@(first :: _) =>
    some ((found.filter fun entry => entry.2.length = first.2.length).map (·.1),
      codes.drop first.2.length)

/-- Characters one after the other up to case, where some stand for several. -/
def foldedText : Nat → List Nat → Node
  | 0, _ => .empty
  | _, [] => .empty
  | fuel + 1, code :: rest =>
    let single := foldedChar code
    let single := match Unicode.Fold.expansions.find? fun entry => entry.1 == code with
      | some (_, codes) =>
        let same := (Unicode.Fold.expansions.filter fun entry => entry.2 == codes).map (·.1)
        .alt (.one (.set (.ofSet (same.foldl (fun set code => .union set (.range code code)) .none))))
          (sequence (codes.map foldedChar))
      | none => single
    let plain := sequence [single, foldedText fuel rest]
    match contraction? (code :: rest) with
    | none => plain
    | some (codes, left) =>
      .alt plain (sequence [.one (.set (.ofSet
        (codes.foldl (fun set code => .union set (.range code code)) .none))),
        foldedText fuel left])

/-- A literal text. -/
def text (codes : List Nat) (ignoreCase : Bool) : Node :=
  if ignoreCase then foldedText codes.length codes
  else .bytes (codes.foldl (fun bytes code => bytes ++ charBytes code) ByteArray.empty)

/-- A literal text that is not empty, in front of other nodes. -/
def withText (codes : List Nat) (ignoreCase : Bool) (nodes : List Node) : List Node :=
  if codes.isEmpty then nodes else text codes.reverse ignoreCase :: nodes

/-- Longest look-behind. -/
def maxBehind : Nat := 65535

/-- Whether a tree holds a group. -/
def hasGroup (tree : Tree) : Bool := !tree.groups.isEmpty

/-- A look-behind with a body that is already lowered. -/
def lookBehind (context : Context) (negated : Bool) (body : Tree) (node : Node) :
    Except Cause Node := do
  if negated ∧ hasGroup body then throw .lookBehind
  if body.parts.any fun part => part matches .absent _ then throw .lookBehind
  let length := Length.of context.lengths body
  if length.low > maxBehind ∨ length.high.any (· > maxBehind) then throw .lookBehind
  let isUsed := body.groups.any fun entry =>
    context.references entry.1 > 0 || context.isCalled entry.1
  if length.low = 0 ∧ length.sure ∧ ¬ isUsed then
    return if negated then .fail else .empty
  return .behind negated length.low length.high node

mutual

/-- The form in which a tree is matched. -/
def node (context : Context) : Tree → Except Cause Node
  | .empty => return .empty
  | .char code ignoreCase => return text [code] ignoreCase
  | .set set => return .one (.set (.ofSet set))
  | .any lineFeeds => return .one (if lineFeeds then .any else .notLineFeed)
  | .anchor anchor => return .anchor anchor
  | .seq items => do return sequence (← nodes context items [] false)
  | .alt branches => alternatives context branches
  | .times body low high greedy => do
    let inner ← node context body
    return repetition inner body (emptyCheck context body) low high greedy
  | .group number _ body => do return .group number (← node context body)
  | .scope body => node context body
  | .atomic body => do return .atomic (← node context body)
  | .look false negated body => do return .ahead negated (← node context body)
  | .look true negated body => do lookBehind context negated body (← node context body)
  | .backRef groups _ ignoreCase => return .backRef groups ignoreCase
  | .captured groups _ => return .captured groups
  | .branch condition yes no => do
    return .branch (← node context condition) (← node context yes) (← node context no)
  | .call (.number number) => return .call number
  | .call (.name name) => throw (.undefinedName name)
  | .keep => return .keep
  | .absent body => do return .absent (← node context body)
  | .segment => return .segment

/-- The forms of the trees of a sequence; `codes` are the characters in front of them, last one
first, that are still to be put into a literal. -/
def nodes (context : Context) : List Tree → (codes : List Nat) → (ignoreCase : Bool) →
    Except Cause (List Node)
  | [], codes, ignoreCase => return withText codes ignoreCase []
  | .char code thisCase :: rest, codes, ignoreCase => do
    if codes.isEmpty ∨ thisCase = ignoreCase then nodes context rest (code :: codes) thisCase
    else return withText codes ignoreCase (← nodes context rest [code] thisCase)
  | item :: rest, codes, ignoreCase => do
    let first ← node context item
    return withText codes ignoreCase (first :: (← nodes context rest [] false))

/-- The forms of alternatives. -/
def alternatives (context : Context) : List Tree → Except Cause Node
  | [] => return .empty
  | [branch] => node context branch
  | branch :: rest => do return .alt (← node context branch) (← alternatives context rest)

end

end Lowering

/-- A regex in the form in which it is matched, with its groups by number. -/
structure Program where
  root : Node
  /-- What the groups hold, where there are calls. -/
  bodies : Array Node
  /-- Number of groups. -/
  groups : Nat
  longest : Bool

/-- The form of a regex that has been read. -/
def Program.ofParsed (parsed : Parsed) : Except Cause Program := do
  let parsed ← parsed.renumbered
  parsed.checkBackRefs
  let parsed ← parsed.resolveCalls
  if parsed.hasCalls ∧ parsed.isEndless then throw .endlessRecursion
  let bodies := parsed.bodies
  let references := parsed.tree.parts.flatMap fun
    | .backRef groups _ _ => groups
    | .captured groups _ => groups
    | _ => []
  let called := parsed.tree.parts.filterMap fun
    | .call (.number number) => some number
    | _ => none
  let context : Lowering.Context :=
    ⟨groupLengths bodies, fun group => references.count group, called.contains⟩
  let root ← Lowering.node context parsed.tree
  let groups ← if parsed.hasCalls then bodies.mapM (Lowering.node context) else pure #[]
  return ⟨root, groups, parsed.groups, parsed.longest⟩

end Highlight.Regex
