/-
**Compiled grammars.**

The rules of a grammar become patterns, numbered from the root on, and refer to their children,
regexes and styles by number. A pattern without an opening regex is a container; one with an opening
regex only is a single match, and one with both is a region.

* `Grammar.pattern`, `Grammar.regex`: look-ups, which fault for numbers that are not there;
* `Grammar.members`: the opening regexes of the children of a pattern;
* `Grammar.plain`: the grammar that highlights nothing.
-/

import Highlight.Regex.Basic

namespace Highlight

/-- Number of a style. -/
abbrev StyleId := Nat

/-- Number of a pattern. -/
abbrev PatternId := Nat

/-- Number of a regex. -/
abbrev RegexId := Nat

/-- The style of what no pattern styles. -/
def defaultStyle : StyleId := 0

/-- The name of that style. -/
def defaultStyleName : String := "default"

/-- How far a regex may look around its match if nothing else is said. -/
def defaultMaxExtend : Nat := 256

/-- The pattern of the rules of the grammar itself. -/
def rootPattern : PatternId := 0

/-- A compiled rule. -/
structure Pattern where
  id : PatternId
  style : Option StyleId
  opening : Option RegexId
  closing : Option RegexId
  /-- Styles of the groups of the opening match. -/
  openingCaptures : List (Option StyleId)
  /-- Styles of the groups of the closing match. -/
  closingCaptures : List (Option StyleId)
  /-- The group of the opening match whose text is remembered. -/
  pushCapture : Option Nat
  /-- The group of the closing match that has to repeat it. -/
  endCapture : Option Nat
  /-- Whether a child goes before the closing match where both match. -/
  closingLast : Bool
  maxExtend : Nat
  /-- The patterns that are tried inside, in order. -/
  children : List PatternId
  deriving DecidableEq, Repr, Inhabited

namespace Pattern

/-- A pattern without regexes. -/
def blank (id : PatternId) (maxExtend : Nat) : Pattern :=
  ⟨id, none, none, none, [], [], none, none, false, maxExtend, []⟩

/-- Whether the pattern holds everything from its opening to its closing match. -/
def isRegion (pattern : Pattern) : Bool := pattern.closing.isSome

/-- Whether the pattern only stands for its children. -/
def isContainer (pattern : Pattern) : Bool := pattern.opening.isNone

end Pattern

/-- A compiled grammar. -/
structure Grammar where
  name : String
  displayName : Option String
  fileTypes : List String
  /-- Names of the styles by number. -/
  styles : Array String
  regexes : Array Regex
  patterns : Array Pattern
  /-- Largest distance any pattern may look around. -/
  maxExtend : Nat
  /-- Whether styles far from anything known may be guessed. -/
  approximate : Bool

namespace Grammar

/-- The grammar of that name that highlights nothing. -/
def plain (name : String) : Grammar :=
  ⟨name, none, [], #[defaultStyleName], #[], #[Pattern.blank rootPattern defaultMaxExtend],
    defaultMaxExtend, false⟩

/-- The pattern of a number. -/
def pattern (grammar : Grammar) (id : PatternId) : Except Fault Pattern :=
  match grammar.patterns[id]? with
  | some found => .ok found
  | none => .error .noEntry

/-- The regex of a number. -/
def regex (grammar : Grammar) (id : RegexId) : Except Fault Regex :=
  match grammar.regexes[id]? with
  | some found => .ok found
  | none => .error .noEntry

/-- Whether there is anything to highlight. -/
def hasPatterns (grammar : Grammar) : Bool :=
  match grammar.patterns[rootPattern]? with
  | some root => !root.children.isEmpty
  | none => false

/-- The name of a style; a number without one has that of the default style. -/
def styleName (grammar : Grammar) (id : StyleId) : String :=
  grammar.styles.getD id defaultStyleName

/-- The number of a style name. -/
def styleId? (grammar : Grammar) (name : String) : Option StyleId :=
  grammar.styles.findIdx? (· == name)

/-- The opening regexes of the children of a pattern, with the numbers of the children. -/
def openings (grammar : Grammar) (pattern : Pattern) : List (PatternId × Regex) :=
  pattern.children.filterMap fun child => do
    let opening ← (← grammar.patterns[child]?).opening
    return (child, ← grammar.regexes[opening]?)

/-- The matchers of the opening regexes of the children of a pattern; none if these regexes do not
form a set. -/
def members (grammar : Grammar) (pattern : Pattern) : List (PatternId × Regex.Matcher) :=
  let member : PatternId × Regex → Option (PatternId × Regex.Matcher)
    | (child, regex) => regex.member.toOption.map fun matcher => (child, matcher)
  ((grammar.openings pattern).mapM member).getD []

/-- The grammar in words: its name and the numbers of its patterns and styles. -/
def describe (grammar : Grammar) : String :=
  let name := grammar.displayName.getD grammar.name
  s!"{name} ({grammar.patterns.size} patterns, {grammar.styles.size} styles)"

end Grammar

end Highlight
