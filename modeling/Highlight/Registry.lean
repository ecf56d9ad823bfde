/-
**Grammars by name.**

A registry holds grammars, which can be found by their names, by their file types and by aliases. All
three are names for one table:

* `Registry.add`: a grammar takes its own name from any other grammar, but a file type only if that
  name is free;
* `Registry.addAlias`: a name takes over what another name stands for;
* `Registry.get`: the grammar of a name;
* `Registry.getOrPlain`: the same, but with the plain grammar where the name is unknown.

A registry is stored as bytes so that it can be had again without its grammar files
(`Registry.store`, `Registry.load`). Its regexes are compiled again then, each when it is first
searched for.
-/

import Highlight.Libraries

namespace Highlight

/-- Grammars by name. -/
structure Registry where
  grammars : Array Grammar
  /-- Names with the numbers of the grammars they stand for; the first entry of a name counts. -/
  names : List (String × Nat)

namespace Registry

/-- The name of the grammar that is used where no other is known. -/
def plainName : String := "plain"

/-- The registry without grammars. -/
def empty : Registry := ⟨#[], []⟩

/-- The number of the grammar a name stands for. -/
def index? (registry : Registry) (name : String) : Option Nat := registry.names.lookup name

/-- Whether a name stands for a grammar. -/
def contains (registry : Registry) (name : String) : Bool := (registry.index? name).isSome

/-- The grammar a name stands for. -/
def get? (registry : Registry) (name : String) : Option Grammar := do
  registry.grammars[← registry.index? name]?

/-- The grammar a name stands for; it is an error if there is none. -/
def get (registry : Registry) (name : String) : Except Error Grammar :=
  match registry.get? name with
  | some grammar => .ok grammar
  | none => .error (.grammarNotFound name)

/-- The grammar a name stands for, or else the plain one. -/
def getOrPlain (registry : Registry) (name : String) : Grammar :=
  ((registry.get? name).or (registry.get? plainName)).getD (.plain plainName)

/-- Whether two names stand for the very same grammar. -/
def same (registry : Registry) (first second : String) : Except Error Bool := do
  let _ ← registry.get first
  let _ ← registry.get second
  return registry.index? first == registry.index? second

/-- Lets a name stand for the grammar of a number. -/
def bind (registry : Registry) (name : String) (index : Nat) : Registry :=
  { registry with names := (name, index) :: registry.names }

/-- Lets a name that is free stand for the grammar of a number. -/
def bindFree (registry : Registry) (index : Nat) (name : String) : Registry :=
  if registry.contains name then registry else registry.bind name index

/-- Adds a compiled grammar. -/
def addGrammar (registry : Registry) (grammar : Grammar) : Registry :=
  let index := registry.grammars.size
  let named := bind { registry with grammars := registry.grammars.push grammar } grammar.name index
  grammar.fileTypes.foldl (fun registry fileType => registry.bindFree index fileType) named

/-- Adds a grammar that is still to be compiled. -/
def add (registry : Registry) (engine : Regex.Engine) (source : Grammar.Source) :
    Except Failure Registry := do
  return registry.addGrammar (← source.compile engine)

/-- Adds the grammar that some bytes hold. -/
def addBytes (registry : Registry) (libraries : Libraries) (bytes : ByteArray) :
    Except Failure Registry := do
  return registry.addGrammar (← libraries.loadGrammar bytes)

/-- Adds the grammar of a file, if the file could be read. -/
def addFile (registry : Registry) (libraries : Libraries) (content : Option ByteArray) :
    Except Failure Registry :=
  match content with
  | some bytes => registry.addBytes libraries bytes
  | none => .error (.error .unreadable)

/-- Lets a name stand for what another one stands for, if that is anything. -/
def addAlias (registry : Registry) (name other : String) : Registry :=
  match registry.index? name with
  | some index => registry.bind other index
  | none => registry

/-- Adds the plain grammar, with aliases. -/
def addPlain (registry : Registry) (engine : Regex.Engine) (aliases : List String) :
    Except Failure Registry := do
  let registry ← registry.add engine (.named plainName)
  return aliases.foldl (fun registry other => registry.addAlias plainName other) registry

/-! ### Stored registries -/

/-- What is stored of a registry. -/
def stored (registry : Registry) : StoredRegistry :=
  ⟨registry.grammars.toList.map Grammar.stored, registry.names⟩

/-- The registry of what is stored of it. -/
def restore (stored : StoredRegistry) (engine : Regex.Engine) : Registry :=
  ⟨(stored.grammars.map (·.restore engine)).toArray, stored.names⟩

/-- The bytes of a registry. -/
def store (registry : Registry) (archive : Archive) : ByteArray := archive.write registry.stored

/-- The registry of some bytes. -/
def load (libraries : Libraries) (bytes : ByteArray) : Except Error Registry := do
  return restore (← libraries.archive.read bytes) libraries.engine

/-- The registry of a file, if the file could be read. -/
def loadFile (libraries : Libraries) (content : Option ByteArray) : Except Error Registry :=
  match content with
  | some bytes => load libraries bytes
  | none => .error .unreadable

end Registry

end Highlight
