/-
**Grammars and settings from JSON.**

* `Source.read`: a grammar from the bytes of a file;
* `Config.read`: settings from the bytes of a file, those that are not there being the usual ones.
-/

import Highlight.Config
import Highlight.Grammar.Source
import Highlight.Json.Decode

namespace Highlight

open Json

namespace Grammar.Source

/-- The style name of a group. -/
def capture (depth : Nat) : Reader String :=
  Decode.record depth [⟨"name", true, fun _ => Decode.string⟩] ""

/-- A table from groups to the names of their styles, whose own bracket may open `depth` more. -/
def captures (depth : Nat) : Reader (List (String × String)) :=
  Decode.table depth (capture (depth - 1))

/-- The fields of a rule, which may open `depth` brackets; `rules` reads the rules in it. -/
def ruleFields (depth : Nat) (rules : Reader (List Rule)) : List (Decode.Field Rule) :=
  let field {α : Type} (name : String) (value : Reader α) (set : Head → α → Head) :
      Decode.Field Rule :=
    ⟨name, false, fun rule => do return { rule with head := set rule.head (← value) }⟩
  let text := Decode.optional Decode.string
  let size := Decode.optional Decode.size
  let table := captures depth
  [field "include" text fun head value => { head with reference := value },
   field "name" text fun head value => { head with name := value },
   field "match" text fun head value => { head with single := value },
   field "begin" text fun head value => { head with opening := value },
   field "end" text fun head value => { head with closing := value },
   field "captures" table fun head value => { head with captures := value },
   field "beginCaptures" table fun head value => { head with openingCaptures := value },
   field "endCaptures" table fun head value => { head with closingCaptures := value },
   field "pushCapture" size fun head value => { head with pushCapture := value },
   field "endCapture" size fun head value => { head with endCapture := value },
   field "applyEndPatternLast" Decode.bool fun head value => { head with closingLast := value },
   field "maxExtend" size fun head value => { head with maxExtend := value },
   ⟨"patterns", false, fun rule => do return { rule with rules := ← rules }⟩]

/-- A rule, which may open `depth` brackets. -/
def rule : (depth : Nat) → Reader Rule
  | 0 => Decode.record 0 (ruleFields 0 (return [])) Rule.blank
  | 1 => Decode.record 1 (ruleFields 0 (Decode.list 0 (return Rule.blank))) Rule.blank
  | depth + 2 =>
    Decode.record (depth + 2) (ruleFields (depth + 1) (Decode.list (depth + 1) (rule depth)))
      Rule.blank

/-- A grammar, which may open `depth` brackets. -/
def grammar (depth : Nat) : Reader Source :=
  let inner := depth - 1
  Decode.record depth
    [⟨"name", true, fun source => do return { source with name := ← Decode.string }⟩,
     ⟨"displayName", false, fun source => do
       return { source with displayName := ← Decode.optional Decode.string }⟩,
     ⟨"fileTypes", false, fun source => do
       return { source with fileTypes := ← Decode.list inner Decode.string }⟩,
     ⟨"maxExtend", false, fun source => do
       return { source with maxExtend := ← Decode.optional Decode.size }⟩,
     ⟨"approximate", false, fun source => do
       return { source with approximate := ← Decode.bool }⟩,
     ⟨"repository", false, fun source => do
       return { source with repository := ← Decode.table inner (rule (inner - 1)) }⟩,
     ⟨"patterns", false, fun source => do
       return { source with rules := ← Decode.list inner (rule (inner - 1)) }⟩]
    (named "")

/-- The grammar that the bytes of a file hold. -/
def read (bytes : ByteArray) : Except Json.Error Source :=
  Decode.fromBytes (grammar Decode.maxDepth) bytes

end Grammar.Source

/-- The settings that the bytes of a file hold. -/
def Config.read (bytes : ByteArray) : Except Json.Error Config :=
  let fields : List (Decode.Field Config) :=
    [⟨"breakpoint_spacing", false, fun config => do
       return { config with spacing := ← Decode.size }⟩,
     ⟨"approximate_reparse_range", false, fun config => do
       return { config with reparseRange := ← Decode.size }⟩]
  Decode.fromBytes (Decode.record Decode.maxDepth fields .usual) bytes

end Highlight
