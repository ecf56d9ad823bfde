/-
**What can be wrong with grammars and where they are kept.**

Highlighting itself has no errors: once a grammar is compiled, every text can be highlighted. What
can fail is getting there, and each way to fail has a constructor, with its wording in
`Error.message`. `Failure` is an error or a fault, for the operations that can meet both.
-/

import Highlight.Fault

namespace Highlight

/-- The ways bytes can fail to be the JSON asked for. -/
inductive Json.Error where
  /-- The bytes end inside a value. -/
  | ended
  /-- The bytes are not JSON. -/
  | malformed
  /-- The bytes are JSON of another shape. -/
  | shape
  deriving DecidableEq, Repr

/-- The ways in which loading or finding a grammar can fail. -/
inductive Error where
  /-- A file cannot be read. -/
  | unreadable
  /-- What was read is not a grammar. -/
  | json (error : Json.Error)
  /-- What was read is not a stored registry. -/
  | dump
  /-- A regex is refused. -/
  | invalidRegex (pattern reason : String)
  /-- An include names nothing. -/
  | unresolvedInclude (name : String)
  /-- A rule is not of any kind. -/
  | invalidPattern (reason : String)
  /-- There are more style names than style numbers. -/
  | tooManyStyles (count : Nat)
  /-- No grammar has the name. -/
  | grammarNotFound (name : String)
  deriving DecidableEq, Repr

/-- The wording of an error, where it is the library's own. -/
def Error.message : Error → Option String
  | unreadable => none
  | json _ => none
  | dump => none
  | invalidRegex pattern reason => some s!"invalid regex '{pattern}': {reason}"
  | unresolvedInclude name => some s!"unresolved include '{name}'"
  | invalidPattern reason => some s!"invalid pattern: {reason}"
  | tooManyStyles count => some s!"grammar uses {count} styles, at most 256 are supported"
  | grammarNotFound name => some s!"grammar '{name}' not found"

/-- An error, or a fault. -/
inductive Failure where
  | error (error : Error)
  | fault (fault : Fault)
  deriving DecidableEq, Repr

/-- A result that can only be missing for an error. -/
def Failure.ofError {α : Type} : Except Error α → Except Failure α
  | .ok value => .ok value
  | .error cause => .error (.error cause)

/-- A result that can only be missing for a fault. -/
def Failure.ofFault {α : Type} : Except Fault α → Except Failure α
  | .ok value => .ok value
  | .error cause => .error (.fault cause)

end Highlight
