/-
**Compiling grammars.**

Rules are numbered in the order in which they are written, the root first, then the entries of the
repository in order of their names. Style names get numbers as they appear. Afterwards every list of
rules is flattened: includes are followed and containers replaced by what they hold, each pattern
being taken once.

* `Compiler.rule`: compiles a rule with the rules in it;
* `Compiler.expand`: the flat list of children of a pattern;
* `Source.written`: compiles the rules of a grammar;
* `Source.compile`: compiles a grammar.

Regexes are compiled by an engine. Numbers of patterns and regexes have 16 bits.
-/

import Highlight.Error
import Highlight.Grammar.Basic
import Highlight.Grammar.Source

namespace Highlight.Grammar

/-- A child of a rule as it is written. -/
inductive ChildRef where
  | pattern (id : PatternId)
  | include (name : String)
  deriving DecidableEq, Repr, Inhabited

/-- What has been compiled so far. -/
structure Compiler where
  defaultExtend : Nat
  styles : Array String
  regexes : Array Regex
  patterns : Array Pattern
  /-- The children of each pattern as they are written. -/
  written : Array (List ChildRef)
  /-- Numbers of the entries of the repository. -/
  repository : List (String × PatternId)

namespace Compiler

/-- A step of compiling. -/
abbrev Step (α : Type) := StateT Compiler (Except Failure) α

/-- Number of patterns or regexes that can be told apart. -/
def idRange : Nat := 0x10000

/-- Largest number of styles. -/
def maxStyles : Nat := 256

/-- Refuses the grammar. -/
def refuse {α : Type} (cause : Error) : Step α := throw (.error cause)

/-- The number of a style name, which gets one if it has none. -/
def style (name : String) : Step StyleId := do
  let compiler ← get
  match compiler.styles.findIdx? (· == name) with
  | some id => return id
  | none =>
    let count := compiler.styles.size
    if count ≥ maxStyles then refuse (.tooManyStyles (count + 1))
    set { compiler with styles := compiler.styles.push name }
    return count

/-- Compiles a regex. -/
def regex (engine : Regex.Engine) (source : String) : Step RegexId := do
  match engine.compile source with
  | .error error => refuse (.invalidRegex source ("Oniguruma error: " ++ error.message))
  | .ok compiled =>
    let compiler ← get
    set { compiler with regexes := compiler.regexes.push compiled }
    return compiler.regexes.size % idRange

/-- The group that a key of a table of captures means. -/
def groupOfKey? (key : String) : Option Nat :=
  let digits := match key.toList with
    | '+' :: rest => rest
    | all => all
  if digits.isEmpty || digits.any fun char => !char.isDigit then none
  else
    let value := digits.foldl (fun value char => value * 10 + (char.toNat - 48)) 0
    if value ≤ maxSize then some value else none

/-- Largest length of a list of styles, each of which takes two bytes. -/
def maxCaptures : Nat := 0x3FFFFFFFFFFFFFFF

/-- The styles of the groups that a table names, by group. -/
def captures (table : List (String × String)) : Step (List (Option StyleId)) := do
  let out ← table.foldlM (fun (out : Array (Option StyleId)) (key, name) => do
    let some group := groupOfKey? key |
      refuse (.invalidPattern s!"capture key '{key}' is not a group")
    if group + 1 > maxCaptures then throw (.fault .overflow)
    let out := out ++ Array.replicate (group + 1 - out.size) none
    return out.setIfInBounds group (some (← style name))) #[]
  return out.toList

/-- The regexes of the pattern of a rule. -/
def ownRegexes (engine : Regex.Engine) (id : PatternId) (head : Head) :
    Step (Option RegexId × Option RegexId) := do
  match head.single, head.opening, head.closing with
  | some single, none, none => return (some (← regex engine single), none)
  | none, some opening, some closing =>
    return (some (← regex engine opening), some (← regex engine closing))
  | none, some opening, none => return (some (← regex engine opening), none)
  | none, none, none => return (none, none)
  | _, _, _ => refuse (.invalidPattern s!"pattern {id} mixes `match` with `begin`/`end`")

/-- Gives a rule its number. -/
def reserve (head : Head) : Step PatternId := do
  let compiler ← get
  let id := compiler.patterns.size % idRange
  let blank := Pattern.blank id (head.maxExtend.getD compiler.defaultExtend)
  set { compiler with
    patterns := compiler.patterns.push blank, written := compiler.written.push [] }
  return id

/-- The pattern of what a rule says of itself. -/
def pattern (engine : Regex.Engine) (id : PatternId) (head : Head) :
    Step (Pattern → Pattern) := do
  let style ← head.name.mapM style
  let (opening, closing) ← ownRegexes engine id head
  let openingCaptures ← captures
    (if head.openingCaptures.isEmpty then head.captures else head.openingCaptures)
  let closingCaptures ← captures
    (if head.closingCaptures.isEmpty then head.captures else head.closingCaptures)
  return fun blank =>
    { blank with
      style := style
      opening := opening
      closing := closing
      openingCaptures := openingCaptures
      closingCaptures := closingCaptures
      pushCapture := head.pushCapture
      endCapture := head.endCapture
      closingLast := head.closingLast }

mutual

/-- Compiles a rule with the rules in it. -/
def rule (engine : Regex.Engine) : Rule → Step PatternId
  | ⟨head, inner⟩ => do
    let id ← reserve head
    let complete ← pattern engine id head
    let children ← rules engine inner
    modify fun compiler =>
      { compiler with
        written := compiler.written.setIfInBounds id children
        patterns := compiler.patterns.modify id complete }
    return id

/-- Compiles the rules in a rule. -/
def rules (engine : Regex.Engine) : List Rule → Step (List ChildRef)
  | [] => return []
  | first :: rest => do
    let child ← match first.head.reference with
      | some name => pure (ChildRef.include name)
      | none => do pure (ChildRef.pattern (← rule engine first))
    return child :: (← rules engine rest)

end

/-- Compiles an entry of the repository. -/
def entry (engine : Regex.Engine) : String × Rule → Step Unit
  | (name, source) => do
    let id ← rule engine source
    modify fun compiler => { compiler with repository := compiler.repository ++ [(name, id)] }

/-- The pattern that an include means. -/
def resolve (compiler : Compiler) (name : String) : Except Error PatternId :=
  if name = "$self" ∨ name = "$base" then .ok rootPattern
  else
    match name.toList with
    | '#' :: entry =>
      match compiler.repository.find? fun known => known.1 == String.ofList entry with
      | some (_, id) => .ok id
      | none => .error (.unresolvedInclude name)
    | _ => .error (.unresolvedInclude name)

/-- The pattern that a child of a rule means. -/
def target (compiler : Compiler) : ChildRef → Except Error PatternId
  | .pattern id => .ok id
  | .include name => compiler.resolve name

/-- The children of a pattern found so far, and which patterns have been visited. -/
structure Found where
  children : Array PatternId
  visited : Array Bool
  deriving DecidableEq, Repr, Inhabited

/-- Adds what a written child stands for, unless its pattern has been visited: the pattern itself, or
what `inner` finds in it if it is a container. -/
def addChild (compiler : Compiler) (inner : PatternId → Found → Except Error Found) (found : Found)
    (child : ChildRef) : Except Error Found := do
  let id ← compiler.target child
  if found.visited.getD id false then return found
  else
    let ⟨children, visited⟩ := found
    let visited := visited.setIfInBounds id true
    if (compiler.patterns.getD id default).isContainer then inner id ⟨children, visited⟩
    else return ⟨children.push id, visited⟩

/-- Adds what the written children of a pattern stand for; `fuel` bounds how deeply containers are
nested. -/
def expand (compiler : Compiler) : (fuel : Nat) → PatternId → Found → Except Error Found
  | 0, _, found => return found
  | fuel + 1, id, found =>
    (compiler.written.getD id []).foldlM (compiler.addChild (expand compiler fuel)) found

/-- The flat list of children of a pattern. Containers are visited once, so that no more of them than
there are patterns can be nested in each other. -/
def childrenOf (compiler : Compiler) (id : PatternId) : Except Error (List PatternId) := do
  let size := compiler.patterns.size
  let found ← compiler.expand (size + 1) id ⟨#[], Array.replicate size false⟩
  return found.children.toList

/-- Flattens the children of every pattern. -/
def resolved (compiler : Compiler) : Except Error Compiler := do
  let patterns ← compiler.patterns.mapIdxM fun index pattern => do
    return { pattern with children := ← compiler.childrenOf (index % idRange) }
  return { compiler with patterns := patterns }

end Compiler

/-- What keeps the opening regexes of the children of some pattern from forming a set. -/
def setError? (grammar : Grammar) (engine : Regex.Engine) : Option Error :=
  grammar.patterns.toList.findSome? fun pattern =>
    let openings := grammar.openings pattern
    (engine.setError? (openings.map (·.2))).map fun error =>
      .invalidRegex s!"<children of pattern {pattern.id}>"
        (s!"Failed to compile pattern set with {openings.length} patterns: " ++
          s!"Error(OnigError({error.code}), {error.message})")

/-- Compiles the rules of a grammar, with their children as they are written. -/
def Source.written (source : Source) (engine : Regex.Engine) : Except Failure Compiler := do
  let defaultExtend := source.maxExtend.getD defaultMaxExtend
  let steps : Compiler.Step Unit := do
    let _ ← Compiler.rule engine ⟨Head.blank, source.rules⟩
    source.repository.forM (Compiler.entry engine)
  let initial : Compiler := ⟨defaultExtend, #[defaultStyleName], #[], #[], #[], []⟩
  let ((), compiler) ← steps.run initial
  return compiler

/-- Compiles a grammar. -/
def Source.compile (source : Source) (engine : Regex.Engine) : Except Failure Grammar := do
  let compiler ← Failure.ofError (← source.written engine).resolved
  let grammar : Grammar :=
    { name := source.name
      displayName := source.displayName
      fileTypes := source.fileTypes
      styles := compiler.styles
      regexes := compiler.regexes
      patterns := compiler.patterns
      maxExtend := compiler.patterns.foldl (fun most pattern => max most pattern.maxExtend) 0
      approximate := source.approximate }
  match grammar.setError? engine with
  | some error => throw (.error error)
  | none => return grammar

end Highlight.Grammar
