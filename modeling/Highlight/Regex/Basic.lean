/-
**Compiled regexes.**

What regexes mean is up to an engine. A regex is used alone, or as a member of a set that is searched
as one, and an engine may compile it differently for the two uses:

* `Engine.compile`: a regex with the matchers for both uses;
* `Engine.restore`: the same for a regex that was stored as it is written;
* `Engine.setError?`: what keeps regexes from forming a set.
-/

import Highlight.Regex.Matcher

namespace Highlight

/-- What an engine says of a regex that it refuses. -/
structure Regex.Error where
  code : Int
  message : String
  deriving DecidableEq, Repr

/-- A compiled regex. -/
structure Regex where
  source : String
  /-- The regex used alone. -/
  alone : Regex.Matcher
  /-- The regex as a member of a set. -/
  member : Except Regex.Error Regex.Matcher

namespace Regex

/-- What keeps the regex from being a member of a set, if anything does. -/
def memberError? (regex : Regex) : Option Error :=
  match regex.member with
  | .ok _ => none
  | .error error => some error

/-- What compiles regexes. A set can be searched just if each of its members can; if some cannot, one
of their errors is reported. -/
structure Engine where
  /-- The matcher of a regex used alone. -/
  alone : (source : String) → Except Error Matcher
  /-- The matcher of a regex as a member of a set. -/
  member : (source : String) → Except Error Matcher
  /-- The error of a set, from those of its members in order. -/
  reported : (first : Error) → (rest : List Error) → Error

namespace Engine

/-- Compiles a regex. -/
def compile (engine : Engine) (source : String) : Except Error Regex := do
  return ⟨source, ← engine.alone source, engine.member source⟩

/-- Compiles a regex that is only looked at when it is searched for; it is never found if it does not
compile. -/
def restore (engine : Engine) (source : String) : Regex :=
  ⟨source, (engine.alone source).toOption.getD .never, engine.member source⟩

/-- What keeps regexes from forming a set, if anything does. -/
def setError? (engine : Engine) (regexes : List Regex) : Option Error :=
  match regexes.filterMap memberError? with
  | [] => none
  | first :: rest => some (engine.reported first rest)

end Engine

end Regex

end Highlight
