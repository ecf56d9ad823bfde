/-
**Names of files.**

* `Path.fileName?`: the name of a file without the directories it is in;
* `Path.extension?`: what comes after the last dot of the name, if that dot is not its first
  character.
-/

namespace Highlight.Path

/-- The parts of a path, those left out that lead nowhere. -/
def parts (path : String) : List String :=
  (path.splitOn "/").filter fun part => part ≠ "" ∧ part ≠ "."

/-- The name of a file without the directories it is in. -/
def fileName? (path : String) : Option String :=
  ((parts path).getLast?).filter (· ≠ "..")

/-- What comes after the last dot of a name, unless only that dot comes before it. -/
def afterDot? (name : List Char) : Option (List Char) :=
  let ending := name.reverse.takeWhile (· ≠ '.')
  if name.length ≤ ending.length + 1 then none else some ending.reverse

/-- The extension of the file a path leads to. -/
def extension? (path : String) : Option String := do
  return String.ofList (← afterDot? (← fileName? path).toList)

end Highlight.Path
