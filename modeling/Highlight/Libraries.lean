/-
**What grammars are read, compiled and kept with.**

Three things are done for a registry from outside: files of grammars are read, regexes are compiled,
and what is stored becomes bytes (`Libraries`). A stored registry has the sources of its regexes in
the place of what they were compiled to:

* `Grammar.stored`, `StoredGrammar.restore`: what is stored of a grammar, and the grammar of it;
* `Archive.Faithful`: what is read of the bytes of a stored registry are its grammars and a table of
  names that says the same.
-/

import Highlight.Grammar.Compile

namespace Highlight

/-- What is stored of a grammar. -/
structure StoredGrammar where
  name : String
  displayName : Option String
  fileTypes : List String
  styles : List String
  /-- The regexes as they are written. -/
  regexes : List String
  patterns : List Pattern
  maxExtend : Nat
  approximate : Bool

/-- What is stored of a grammar: its regexes as they are written. -/
def Grammar.stored (grammar : Grammar) : StoredGrammar where
  name := grammar.name
  displayName := grammar.displayName
  fileTypes := grammar.fileTypes
  styles := grammar.styles.toList
  regexes := grammar.regexes.toList.map Regex.source
  patterns := grammar.patterns.toList
  maxExtend := grammar.maxExtend
  approximate := grammar.approximate

/-- The grammar of what is stored of it. -/
def StoredGrammar.restore (stored : StoredGrammar) (engine : Regex.Engine) : Grammar where
  name := stored.name
  displayName := stored.displayName
  fileTypes := stored.fileTypes
  styles := stored.styles.toArray
  regexes := (stored.regexes.map engine.restore).toArray
  patterns := stored.patterns.toArray
  maxExtend := stored.maxExtend
  approximate := stored.approximate

/-- What is stored of a registry: grammars, and names with the numbers of the grammars they stand
for. -/
structure StoredRegistry where
  grammars : List StoredGrammar
  names : List (String × Nat)

/-- A way to store registries as bytes. -/
structure Archive where
  write : StoredRegistry → ByteArray
  read : ByteArray → Except Error StoredRegistry

/-- Reading gives the grammars that were written, and a table in which every name stands for what it
stood for. -/
def Archive.Faithful (archive : Archive) : Prop :=
  ∀ stored, ∃ names, archive.read (archive.write stored) = .ok { stored with names := names } ∧
    ∀ name, names.lookup name = stored.names.lookup name

/-- What grammars are read, compiled and kept with. -/
structure Libraries where
  /-- The grammar that the bytes of a file hold. -/
  readGrammar : ByteArray → Except Json.Error Grammar.Source
  engine : Regex.Engine
  archive : Archive

/-- Reads and compiles the grammar that the bytes of a file hold. -/
def Libraries.loadGrammar (libraries : Libraries) (bytes : ByteArray) : Except Failure Grammar := do
  let source ← Failure.ofError ((libraries.readGrammar bytes).mapError .json)
  source.compile libraries.engine

end Highlight
