/-
**The arguments of the command line.**

Arguments are options, most of which have a value, and the name of a file. An option has a long name
and may have a short one; its value follows it, as an argument of its own or in the same one:

* `Flag`: the options that have a value;
* `Arguments`: what was given;
* `Request.ofArguments`: what is asked for. Asking for help or for the version goes before everything
  that comes after it; anything wrong is told as a `UsageError`.
-/

import Highlight.Fault

namespace Highlight

/-- The options that have a value. -/
inductive Flag where
  /-- A grammar file; there may be several. -/
  | grammar
  /-- A stored registry, instead of grammar files. -/
  | registry
  /-- The name, alias or file type of the grammar. -/
  | language
  /-- Distance in bytes between checkpoints. -/
  | spacing
  /-- Time for a slice of work, in milliseconds. -/
  | budget
  /-- Where to store the registry. -/
  | dump
  deriving DecidableEq, Repr, Inhabited

namespace Flag

/-- The long name of an option. -/
def name : Flag → String
  | grammar => "grammar"
  | registry => "registry"
  | language => "lang"
  | spacing => "spacing"
  | budget => "budget-ms"
  | dump => "dump"

/-- All options that have a value. -/
def all : List Flag := [grammar, registry, language, spacing, budget, dump]

/-- The option of a long name. -/
def ofName? (name : String) : Option Flag := all.find? fun flag => flag.name == name

/-- The option of a short name. -/
def ofLetter? : Char → Option Flag
  | 'g' => some grammar
  | 'l' => some language
  | _ => none

end Flag

/-- What can be wrong with arguments. -/
inductive UsageError where
  /-- There is no such option. -/
  | unknown (argument : String)
  /-- The option needs a value. -/
  | missingValue (flag : Flag)
  /-- The value does not fit the option. -/
  | invalidValue (flag : Flag) (value : String)
  /-- The option has no value. -/
  | unexpectedValue (argument : String)
  /-- The option may be given only once. -/
  | repeated (flag : Flag)
  /-- There is more than one file, or one without a name. -/
  | unexpectedFile (file : String)
  /-- Grammar files and a stored registry are both given. -/
  | conflict
  /-- Neither of them is. -/
  | noGrammar
  deriving DecidableEq, Repr

/-- What is wrong, in words. -/
def UsageError.message : UsageError → String
  | unknown argument => s!"unexpected argument '{argument}' found"
  | missingValue flag => s!"a value is required for '--{flag.name}' but none was supplied"
  | invalidValue flag value => s!"invalid value '{value}' for '--{flag.name}'"
  | unexpectedValue argument => s!"unexpected value in '{argument}'"
  | repeated flag => s!"the argument '--{flag.name}' cannot be used multiple times"
  | unexpectedFile file => s!"unexpected argument '{file}' found"
  | conflict => "the argument '--registry' cannot be used with '--grammar'"
  | noGrammar => "the required argument '--grammar' was not provided"

/-- The arguments that were given. -/
structure Arguments where
  grammars : List String
  registry : Option String
  language : Option String
  spacing : Option Nat
  budget : Option Nat
  dump : Option String
  file : Option String
  deriving DecidableEq, Repr, Inhabited

/-- What a command line asks for. -/
inductive Request where
  | highlight (arguments : Arguments)
  | help
  | version
  | refused (error : UsageError)
  deriving DecidableEq, Repr

namespace Arguments

/-- No arguments. -/
def none : Arguments := ⟨[], .none, .none, .none, .none, .none, .none⟩

/-- The size that a text of decimal digits, with or without a plus sign, stands for. -/
def sizeOf? (text : String) : Option Nat :=
  let digits := match text.toList with
    | '+' :: rest => rest
    | other => other
  if digits.isEmpty ∨ ¬ digits.all Char.isDigit then .none
  else
    let value := digits.foldl (fun value digit => 10 * value + (digit.toNat - '0'.toNat)) 0
    if value ≤ maxSize then some value else .none

/-- Sets what may be given only once. -/
def once {α : Type} (flag : Flag) (old : Option α) (value : α) : Except UsageError (Option α) :=
  if old.isSome then .error (.repeated flag) else .ok (some value)

/-- The path that a value is, which must not be empty. -/
def pathOf (flag : Flag) (value : String) : Except UsageError String :=
  if value = "" then .error (.invalidValue flag value) else .ok value

/-- The size that a value is. -/
def sizeOf (flag : Flag) (value : String) : Except UsageError Nat :=
  match sizeOf? value with
  | some size => .ok size
  | .none => .error (.invalidValue flag value)

/-- Takes the value of an option. -/
def set (arguments : Arguments) (flag : Flag) (value : String) : Except UsageError Arguments := do
  match flag with
  | .grammar =>
    return { arguments with grammars := arguments.grammars ++ [← pathOf flag value] }
  | .registry =>
    return { arguments with registry := ← once flag arguments.registry (← pathOf flag value) }
  | .language => return { arguments with language := ← once flag arguments.language value }
  | .spacing =>
    return { arguments with spacing := ← once flag arguments.spacing (← sizeOf flag value) }
  | .budget =>
    return { arguments with budget := ← once flag arguments.budget (← sizeOf flag value) }
  | .dump =>
    return { arguments with dump := ← once flag arguments.dump (← pathOf flag value) }

/-- Takes the name of the file. -/
def setFile (arguments : Arguments) (file : String) : Except UsageError Arguments :=
  if file = "" ∨ arguments.file.isSome then .error (.unexpectedFile file)
  else .ok { arguments with file := some file }

/-- What is needed in the end: grammar files or a stored registry, and not both. -/
def checked (arguments : Arguments) : Except UsageError Arguments :=
  match arguments.grammars, arguments.registry with
  | [], .none => .error .noGrammar
  | _ :: _, some _ => .error .conflict
  | _, _ => .ok arguments

end Arguments

/-- What a single argument is. -/
inductive Word where
  /-- Only files follow. -/
  | escape
  | help
  | version
  /-- An option with its value. -/
  | valued (flag : Flag) (value : String)
  /-- An option whose value is the next argument. -/
  | awaiting (flag : Flag)
  | file (name : String)
  | wrong (error : UsageError)
  deriving DecidableEq, Repr

namespace Word

/-- An argument that begins with two dashes, without them. -/
def ofLong (body : List Char) : Word :=
  let name := String.ofList (body.takeWhile (· ≠ '='))
  let argument := "--" ++ String.ofList body
  match name, (body.dropWhile (· ≠ '=')) with
  | "", [] => escape
  | "help", [] => help
  | "version", [] => version
  | name, '=' :: value =>
    match Flag.ofName? name with
    | some flag => valued flag (String.ofList value)
    | none =>
      wrong (if name = "help" ∨ name = "version" then .unexpectedValue argument
        else .unknown argument)
  | name, _ =>
    match Flag.ofName? name with
    | some flag => awaiting flag
    | none => wrong (.unknown argument)

/-- An argument that begins with one dash, without it. -/
def ofShort (letter : Char) (body : List Char) : Word :=
  match letter, Flag.ofLetter? letter, body with
  | 'h', _, _ => help
  | 'V', _, _ => version
  | _, some flag, [] => awaiting flag
  | _, some flag, '=' :: value => valued flag (String.ofList value)
  | _, some flag, value => valued flag (String.ofList value)
  | _, none, _ => wrong (.unknown ("-" ++ String.ofList (letter :: body)))

/-- What an argument is. -/
def ofArgument (argument : String) : Word :=
  match argument.toList with
  | '-' :: '-' :: body => ofLong body
  | '-' :: letter :: body => ofShort letter body
  | _ => file argument

end Word

namespace Request

/-- Reads arguments that are all names of files. -/
def readFiles (arguments : Arguments) (files : List String) : Except Request Arguments :=
  match files.foldlM (fun arguments file => arguments.setFile file) arguments with
  | .ok arguments => .ok arguments
  | .error error => .error (.refused error)

/-- A result of which nothing but a usage error can be in the way. -/
def orRefused {α : Type} : Except UsageError α → Except Request α
  | .ok value => .ok value
  | .error error => .error (.refused error)

/-- Reads the arguments one after the other. -/
def read (arguments : Arguments) : List String → Except Request Arguments
  | [] => .ok arguments
  | argument :: rest => do
    match Word.ofArgument argument with
    | .escape => readFiles arguments rest
    | .help => throw .help
    | .version => throw .version
    | .wrong error => throw (.refused error)
    | .file name => read (← orRefused (arguments.setFile name)) rest
    | .valued flag value => read (← orRefused (arguments.set flag value)) rest
    | .awaiting flag =>
      match rest with
      | [] => throw (.refused (.missingValue flag))
      | value :: rest =>
        match Word.ofArgument value with
        | .file _ => read (← orRefused (arguments.set flag value)) rest
        | _ => throw (.refused (.missingValue flag))

/-- What a list of arguments asks for. -/
def ofArguments (arguments : List String) : Request :=
  match read .none arguments with
  | .error request => request
  | .ok arguments =>
    match arguments.checked with
    | .ok arguments => highlight arguments
    | .error error => refused error

end Request

end Highlight
