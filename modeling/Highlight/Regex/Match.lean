/-
**What a search is told and what it finds.**

A search is told where lines begin and end (`SearchFlags`) and finds a `Match`: where it begins and
ends, and where its groups do.
-/

import Highlight.Text.Basic

namespace Highlight.Regex

/-- Whether the start of the subject is taken for no start, and its end for no end, of a line. -/
structure SearchFlags where
  notLineStart : Bool
  notLineEnd : Bool
  deriving DecidableEq, Repr, Inhabited

/-- A match: its bytes and those of its groups, the whole match being group zero. -/
structure Match where
  start : Nat
  stop : Nat
  groups : List (Option (Nat × Nat))
  deriving DecidableEq, Repr, Inhabited

namespace Match

/-- The bytes of a group, if there is one of that number that took part. -/
def span? (found : Match) (group : Nat) : Option (Nat × Nat) := (found.groups[group]?).join

/-- The text of a group, if it took part and is a piece of the subject. -/
def group? (found : Match) (subject : Text) (group : Nat) : Option Text :=
  match found.span? group with
  | some (start, stop) => subject.slice? start stop
  | none => none

/-- The match with every position moved by `offset` bytes. -/
def moved (found : Match) (offset : Nat) : Match where
  start := found.start + offset
  stop := found.stop + offset
  groups := found.groups.map fun span => span.map fun (start, stop) =>
    (start + offset, stop + offset)

end Match

end Highlight.Regex
