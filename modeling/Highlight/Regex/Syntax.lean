/-
**Regexes as trees.**

A `Tree` is a regex as it is written, with every escape, option and class resolved. Back references
and calls still stand for group numbers and names as written.

* `Tree.isRepeatable`: what a quantifier may stand behind, which is anything but an anchor or a
  look-around, alone or as an alternative;
* `Tree.quantified`: a tree under a quantifier. A quantifier directly on another one is merged with
  it where the two amount to a single one.
-/

import Highlight.Regex.CharSet

namespace Highlight.Regex

/-- The places in a subject that a regex can ask for. -/
inductive Anchor where
  | lineStart
  | lineEnd
  | subjectStart
  | subjectEnd
  /-- The end of the subject or the line feed that ends it. -/
  | finalLineEnd
  /-- Where the search began. -/
  | searchStart
  | wordBoundary (asciiOnly : Bool)
  | noWordBoundary (asciiOnly : Bool)
  | segmentBoundary
  | noSegmentBoundary
  deriving DecidableEq, Repr

/-- What a call names: a group number, or a name. -/
inductive Callee where
  | number (group : Nat)
  | name (name : String)
  deriving DecidableEq, Repr

/-- Repetition bounds, and whether the longer repetitions are tried first. -/
structure Quantifier where
  low : Nat
  /-- No bound if there is none. -/
  high : Option Nat
  greedy : Bool
  /-- Whether what was repeated is given up again. -/
  possessive : Bool
  deriving DecidableEq, Repr

/-- A regex as it is written. -/
inductive Tree where
  | empty
  | char (code : Nat) (ignoreCase : Bool)
  | set (set : CharSet)
  /-- Any character, line feeds only if so wished. -/
  | any (lineFeeds : Bool)
  | anchor (anchor : Anchor)
  | seq (items : List Tree)
  | alt (branches : List Tree)
  | times (body : Tree) (low : Nat) (high : Option Nat) (greedy : Bool)
  | group (number : Nat) (named : Bool) (body : Tree)
  /-- What stands under options of its own. -/
  | scope (body : Tree)
  | atomic (body : Tree)
  | look (behind negated : Bool) (body : Tree)
  | backRef (groups : List Nat) (byName ignoreCase : Bool)
  /-- Whether one of the groups took part. -/
  | captured (groups : List Nat) (byName : Bool)
  | branch (condition yes no : Tree)
  | call (callee : Callee)
  /-- Moves the start of the match to here. -/
  | keep
  /-- The longest text without an occurrence of the body. -/
  | absent (body : Tree)
  /-- One character together with the marks on it. -/
  | segment

namespace Tree

/-- A sequence, which is the item itself if there is one. -/
def ofItems : List Tree → Tree
  | [] => empty
  | [item] => item
  | items => seq items

/-- Alternatives, which are the branch itself if there is one. -/
def ofBranches : List Tree → Tree
  | [single] => single
  | branches => alt branches

/-- Whether a quantifier may stand behind the tree. -/
def isRepeatable : Tree → Bool
  | anchor _ => false
  | look _ _ _ => false
  | keep => false
  | alt branches => all branches
  | _ => true
where
  /-- Whether a quantifier may stand behind each of the trees. -/
  all : List Tree → Bool
  | [] => true
  | first :: rest => isRepeatable first && all rest

/-- The six simple quantifiers. -/
inductive Simple where
  | optional | star | plus | lazyOptional | lazyStar | lazyPlus
  deriving DecidableEq

/-- The simple quantifier with these bounds. -/
def Simple.of? (low : Nat) (high : Option Nat) (greedy : Bool) : Option Simple :=
  match low, high, greedy with
  | 0, some 1, true => some optional
  | 0, none, true => some star
  | 1, none, true => some plus
  | 0, some 1, false => some lazyOptional
  | 0, none, false => some lazyStar
  | 1, none, false => some lazyPlus
  | _, _, _ => none

/-- What two simple quantifiers on top of each other amount to. -/
inductive Merge where
  /-- The inner one. -/
  | inner
  | star
  | plus
  | lazyStar
  | lazyOptional
  /-- A greedy repetition that is optional but rather not taken. -/
  | lazyOptionalPlus
  /-- Nothing simpler. -/
  | keep

/-- What a simple quantifier `outer` on an `inner` one amounts to. -/
def Simple.merge : (inner outer : Simple) → Merge
  | optional, optional => .inner
  | optional, star => .star
  | optional, plus => .star
  | optional, lazyOptional => .lazyOptional
  | optional, lazyStar => .lazyStar
  | optional, lazyPlus => .keep
  | star, optional => .inner
  | star, star => .inner
  | star, plus => .inner
  | star, lazyOptional => .lazyOptionalPlus
  | star, lazyStar => .lazyOptionalPlus
  | star, lazyPlus => .inner
  | plus, optional => .star
  | plus, star => .star
  | plus, plus => .inner
  | plus, lazyOptional => .keep
  | plus, lazyStar => .lazyOptionalPlus
  | plus, lazyPlus => .inner
  | lazyOptional, optional => .inner
  | lazyOptional, star => .lazyStar
  | lazyOptional, plus => .lazyStar
  | lazyOptional, lazyOptional => .inner
  | lazyOptional, lazyStar => .lazyStar
  | lazyOptional, lazyPlus => .lazyStar
  | lazyStar, _ => .inner
  | lazyPlus, optional => .keep
  | lazyPlus, star => .star
  | lazyPlus, plus => .plus
  | lazyPlus, lazyOptional => .lazyStar
  | lazyPlus, lazyStar => .lazyStar
  | lazyPlus, lazyPlus => .inner

/-- A repetition of a repetition. -/
def timesTimes (body : Tree) (innerLow : Nat) (innerHigh : Option Nat) (innerGreedy : Bool)
    (low : Nat) (high : Option Nat) (greedy : Bool) : Tree :=
  let inner := times body innerLow innerHigh innerGreedy
  match Simple.of? innerLow innerHigh innerGreedy, Simple.of? low high greedy with
  | some innerKind, some outerKind =>
    match innerKind.merge outerKind with
    | .inner => inner
    | .star => times body 0 none true
    | .plus => times body 1 none true
    | .lazyStar => times body 0 none false
    | .lazyOptional => times body 0 (some 1) false
    | .lazyOptionalPlus => times (times body 1 none true) 0 (some 1) false
    | .keep => times inner low high greedy
  | some .star, none | some .plus, none =>
    match high with
    | some upper =>
      if upper > 1 && greedy then times inner low (some (if low = 0 then 1 else low)) greedy
      else times inner low high greedy
    | none => times inner low high greedy
  | _, _ =>
    if high = some low && innerHigh = some innerLow then
      times body (low * innerLow) (some (low * innerLow)) greedy
    else times inner low high greedy

/-- The tree under a quantifier. -/
def quantified (tree : Tree) (quantifier : Quantifier) : Tree :=
  let single := quantifier.low == 1 && quantifier.high == some 1
  let plain :=
    if single then tree
    else match tree with
      | times body low high greedy =>
        timesTimes body low high greedy quantifier.low quantifier.high quantifier.greedy
      | _ => times tree quantifier.low quantifier.high quantifier.greedy
  if quantifier.possessive && !single then atomic plain
  else plain

end Tree

end Highlight.Regex
