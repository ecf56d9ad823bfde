/-
**What the command line does.**

A request is carried out on files that have been read before, and its outcome says what is to be
printed and written:

* `Arguments.loadRegistry`: the grammars of a request, the plain one always among them;
* `Arguments.run`: stores the registry, or highlights the file;
* `Request.outcome`: the outcome of any request;
* `Outcome.output`, `Outcome.code`: what an outcome prints, and the code the program ends with.

A file is highlighted a slice at a time, as in an editor, and only then are its styles asked for.
-/

import Highlight.Buffer
import Highlight.CommandLine.Arguments
import Highlight.CommandLine.Path
import Highlight.Registry
import Highlight.Scan.Runs

namespace Highlight

/-- How a file was highlighted. -/
structure Summary where
  size : Nat
  grammar : String
  slices : Nat
  breaks : Nat
  deriving DecidableEq, Repr, Inhabited

namespace Summary

/-- The summary in words; `time` is put behind the number of slices. -/
def describe (summary : Summary) (time : String) : String :=
  s!"{summary.size} bytes with {summary.grammar} in {summary.slices} slices{time}, " ++
    s!"{summary.breaks} checkpoints\n"

end Summary

/-- What can be in the way of a request. -/
inductive Problem where
  | failure (failure : Failure)
  /-- No file is named. -/
  | noFile
  /-- The styles are not known exactly after all work is done. -/
  | unsettled
  deriving DecidableEq, Repr

/-- The outcome of a request. -/
inductive Outcome where
  /-- The runs of a file, with the names of their styles. -/
  | highlighted (runs : List (StyledSpan × String)) (summary : Summary)
  /-- The bytes of the registry, and where they are to go. -/
  | archived (path : String) (bytes : ByteArray)
  | help
  | version
  | refused (error : UsageError)
  | failed (problem : Problem)

namespace Arguments

/-- The grammars of a request. `read` gives the bytes of the files that can be read. -/
def loadRegistry (arguments : Arguments) (libraries : Libraries)
    (read : String → Option ByteArray) : Except Failure Registry := do
  let registry ← match arguments.registry with
    | some path => Failure.ofError (Registry.loadFile libraries (read path))
    | .none =>
      arguments.grammars.foldlM (fun registry path => registry.addFile libraries (read path)) .empty
  if registry.contains Registry.plainName then return registry
  else registry.addPlain libraries.engine ["txt"]

/-- The name by which the grammar for a file is looked up. -/
def languageOf (arguments : Arguments) (file : String) : String :=
  (arguments.language.or (Path.extension? file)).getD Registry.plainName

/-- The text of a file, if it can be read and is one. -/
def textOf (content : Option ByteArray) : Except Failure Text :=
  match content.bind String.fromUTF8? with
  | some string => .ok (.ofString string)
  | .none => .error (.error .unreadable)

/-- The settings of a request. -/
def config (arguments : Arguments) : Config :=
  match arguments.spacing with
  | some spacing => Config.usual.withSpacing spacing
  | .none => Config.usual

/-- Largest number of slices that can be counted, in 32 bits with a sign. -/
def maxSlices : Nat := 0x7FFFFFFF

/-- Slices of work until there is nothing left to do, at most `limit`, and how many there were; each
slice has its deadline. -/
def settle (deadline : Nat → Deadline) :
    (limit : Nat) → (slices : Nat) → Buffer → Except Fault (Nat × Buffer)
  | 0, _, _ => throw .stalled
  | limit + 1, slices, buffer => do
    if buffer.needsProcessing then
      let (_, buffer) ← buffer.process (deadline slices)
      if slices < maxSlices then settle deadline limit (slices + 1) buffer else throw .overflow
    else return (slices, buffer)

/-- Highlights a text with a grammar; each slice of work has its deadline. Every slice gets on by a
byte, so that there is a bound for their number. -/
def highlight (arguments : Arguments) (text : Text) (grammar : Grammar)
    (deadline : Nat → Deadline) : Except Problem Outcome := do
  let fault {α : Type} (result : Except Fault α) : Except Problem α :=
    result.mapError fun fault => .failure (.fault fault)
  let buffer := Buffer.ofText text grammar arguments.config
  let (slices, buffer) ← fault (settle deadline (buffer.size + 2) 0 buffer)
  match ← fault (buffer.styles 0 buffer.size) with
  | (.exact styles, buffer) =>
    let runs := StyledSpan.runs styles.toList
    return .highlighted (runs.map fun run => (run, grammar.styleName run.style))
      ⟨buffer.size, grammar.name, slices, buffer.highlighter.breaks.size⟩
  | _ => throw .unsettled

/-- Carries out a request: the registry is stored if that is asked for, and a file is highlighted
otherwise. -/
def run (arguments : Arguments) (libraries : Libraries) (read : String → Option ByteArray)
    (deadline : Nat → Deadline) : Except Problem Outcome := do
  let registry ← (arguments.loadRegistry libraries read).mapError .failure
  match arguments.dump, arguments.file with
  | some path, _ => return .archived path (registry.store libraries.archive)
  | .none, .none => throw .noFile
  | .none, some file =>
    let grammar := registry.getOrPlain (arguments.languageOf file)
    let text ← (textOf (read file)).mapError .failure
    arguments.highlight text grammar deadline

/-- The files that a request reads. -/
def inputs (arguments : Arguments) : List String :=
  arguments.grammars ++ arguments.registry.toList ++ arguments.file.toList

/-- The usual time for a slice of work, in milliseconds. -/
def usualBudget : Nat := 5

/-- The deadline of every slice of work. Work is taken to need no time, so that only a budget of no
time is ever used up. -/
def deadline (arguments : Arguments) : Deadline :=
  if arguments.budget.getD usualBudget = 0 then .expired else .never

end Arguments

/-- The outcome of a request. `read` gives the bytes of the files that can be read. -/
def Request.outcome (libraries : Libraries) (read : String → Option ByteArray) : Request → Outcome
  | .highlight arguments =>
    match arguments.run libraries read fun _ => arguments.deadline with
    | .ok outcome => outcome
    | .error problem => .failed problem
  | .help => .help
  | .version => .version
  | .refused error => .refused error

namespace Outcome

/-- The name of the program and its version. -/
def versionText : String := "lampo 0.1.0\n"

/-- How the program is used. -/
def helpText : String :=
  "Highlight a file incrementally and print the style runs\n\n" ++
  "Usage: lampo [OPTIONS] [FILE]\n\n" ++
  "Arguments:\n" ++
  "  [FILE]  \n\n" ++
  "Options:\n" ++
  "  -g, --grammar <GRAMMAR>      Grammar JSON files to load\n" ++
  "      --registry <REGISTRY>    A registry dump made with `--dump`, " ++
    "loaded instead of grammar files\n" ++
  "  -l, --lang <LANG>            Grammar name, alias or file type. " ++
    "Defaults to the file extension\n" ++
  "      --spacing <SPACING>      Bytes between checkpoints [default: 512]\n" ++
  "      --budget-ms <BUDGET_MS>  Time budget of a single processing slice, in milliseconds " ++
    "[default: 5]\n" ++
  "      --dump <DUMP>            Write the loaded grammars to this file and exit\n" ++
  "  -h, --help                   Print help\n" ++
  "  -V, --version                Print version\n"

/-- A run of a style as a line. -/
def line : StyledSpan × String → String
  | (run, name) => s!"{run.start}..{run.stop} {name}\n"

/-- What an outcome prints. -/
def output : Outcome → String
  | highlighted runs _ => String.join (runs.map line)
  | archived path _ => s!"Registry written to {path}\n"
  | help => helpText
  | version => versionText
  | _ => ""

/-- The code the program ends with. -/
def code : Outcome → Nat
  | refused _ => 2
  | failed (.failure (.fault _)) => 101
  | failed _ => 1
  | _ => 0

end Outcome

end Highlight
