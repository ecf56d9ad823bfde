/-
**The program.**

Files are read before a request is carried out, and its outcome is printed and written afterwards.
-/

import Highlight.CommandLine.Builtin
import Highlight.CommandLine.Run

namespace Highlight.Main

/-- The bytes of a file, if it can be read. -/
def readFile? (path : String) : IO (Option ByteArray) := do
  try return some (← IO.FS.readBinFile path) catch _ => return none

/-- The bytes of those of some files that can be read. -/
def readFiles (paths : List String) : IO (List (String × ByteArray)) :=
  paths.filterMapM fun path => do
    return (← readFile? path).map fun bytes => (path, bytes)

/-- What went wrong, in words. -/
def complaint : Outcome → Option String
  | .refused error => some s!"error: {error.message}"
  | .failed .noFile => some "Error: no input file given"
  | .failed .unsettled => some "Error: highlighting did not settle"
  | .failed (.failure (.error error)) =>
    some ("Error: " ++ error.message.getD "a file cannot be used")
  | .failed (.failure (.fault fault)) =>
    some ("Error: " ++ fault.message.getD "a size is out of range")
  | _ => none

/-- Prints and writes what an outcome says. -/
def finish (outcome : Outcome) (milliseconds : Nat) : IO UInt32 := do
  match outcome with
  | .archived path bytes =>
    try IO.FS.writeBinFile path bytes
    catch error =>
      IO.eprintln s!"Error: {error}"
      return 1
  | _ => pure ()
  IO.print outcome.output
  match outcome with
  | .highlighted _ summary => IO.eprint (summary.describe s!" ({milliseconds}ms)")
  | _ => pure ()
  match complaint outcome with
  | some text => IO.eprintln text
  | none => pure ()
  return UInt32.ofNat outcome.code

end Highlight.Main

open Highlight in
/-- Reads the arguments and does what they ask for. -/
def main (arguments : List String) : IO UInt32 := do
  let request := Request.ofArguments arguments
  let files ← match request with
    | .highlight arguments => Main.readFiles arguments.inputs
    | _ => pure []
  let start ← IO.monoMsNow
  let outcome := request.outcome .builtin fun path => files.lookup path
  let code := outcome.code
  let stop ← IO.monoMsNow
  Main.finish outcome (if code = 0 then stop - start else 0)
