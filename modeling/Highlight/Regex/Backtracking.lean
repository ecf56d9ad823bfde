/-
**An engine that goes back.**

A regex is parsed, made into a program and run by a machine that tries one way to match after the
other. As a member of a set its unnamed groups capture even beside named ones, and a few regexes that
are fine alone cannot be members:

* `Matcher.ofProgram`: the matcher of a program, which passes over positions where nothing can match;
* `Engine.backtracking`: the engine. Of the members that keep a set from being formed, one that does
  not compile is reported before one that only does not fit into sets.
-/

import Highlight.Regex.Cause
import Highlight.Regex.FirstByte

namespace Highlight.Regex

/-- The matcher of a regex that has been compiled. -/
def Matcher.ofProgram (program : Program) : Matcher :=
  match program.filter? with
  | none => ⟨program.attempt⟩
  | some table =>
    { attempt := fun subject origin position flags =>
        match subject.byte? position with
        | some byte =>
          if table.get! byte.toNat == 1 then program.attempt subject origin position flags else none
        | none => none }

/-- The program of a regex. -/
def program (source : String) (captureAll : Bool) : Except Cause Program := do
  Program.ofParsed (← parse source captureAll)

/-- The program of a regex as a member of a set. -/
def memberProgram (source : String) : Except Cause Program := do
  let program ← program source true
  if program.longest then throw .invalidArgument
  return program

/-- The engine whose matchers are programs. -/
def Engine.backtracking : Engine where
  alone source := ((program source false).map .ofProgram).mapError Cause.error
  member source := ((memberProgram source).map .ofProgram).mapError Cause.error
  reported first rest :=
    ((first :: rest).find? (· ≠ Cause.invalidArgument.error)).getD first

end Highlight.Regex
