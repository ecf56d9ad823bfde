/-
**Grammars as they are written.**

A grammar is a list of rules and a repository of named ones. A rule is a single match, a region
between two matches, a reference to other rules or a container for them, depending on which of its
fields are there (`Rule`).
-/

namespace Highlight.Grammar

/-- What a rule says of itself. -/
structure Head where
  /-- `#name` for an entry of the repository, `$self` or `$base` for the rules of the grammar. -/
  reference : Option String
  /-- Name of the style of what is matched. -/
  name : Option String
  single : Option String
  opening : Option String
  closing : Option String
  /-- Names of the styles of groups, for both matches of a region. -/
  captures : List (String × String)
  openingCaptures : List (String × String)
  closingCaptures : List (String × String)
  /-- The group of the opening match whose text is remembered. -/
  pushCapture : Option Nat
  /-- The group of the closing match that has to repeat that text. -/
  endCapture : Option Nat
  /-- Whether an inner rule goes before the closing match where both match. -/
  closingLast : Bool
  /-- How many bytes a match may look around. -/
  maxExtend : Option Nat
  deriving DecidableEq, Repr, Inhabited

/-- The head without any field. -/
def Head.blank : Head := ⟨none, none, none, none, none, [], [], [], none, none, false, none⟩

/-- One rule of a grammar, with the rules in it. -/
structure Rule where
  head : Head
  rules : List Rule
  deriving Inhabited

/-- The rule without any field. -/
def Rule.blank : Rule := ⟨Head.blank, []⟩

/-- A grammar as it is written. -/
structure Source where
  name : String
  displayName : Option String
  fileTypes : List String
  maxExtend : Option Nat
  /-- Whether styles far from anything known may be guessed. -/
  approximate : Bool
  /-- In order of the names. -/
  repository : List (String × Rule)
  rules : List Rule
  deriving Inhabited

namespace Source

/-- The grammar of that name without any rule. -/
def named (name : String) : Source := ⟨name, none, [], none, false, [], []⟩

end Source

end Highlight.Grammar
