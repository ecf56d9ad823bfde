/-
**Settings of a highlighter.**

Two sizes can be chosen: how far apart checkpoints are, and how far back a guess begins. The sizes
that follow from them can leave the range of sizes, which is a fault:

* `Config.windowUnit`: how many bytes are searched at a time;
* `Config.maxDistance`: how far from a checkpoint a style query may be.
-/

import Highlight.Grammar.Basic

namespace Highlight

/-- The settings of a highlighter. -/
structure Config where
  /-- Distance in bytes between checkpoints. -/
  spacing : Nat
  /-- How far before a query a guess begins. -/
  reparseRange : Nat
  deriving DecidableEq, Repr, Inhabited

namespace Config

/-- The usual settings. -/
def usual : Config := ⟨512, 1024⟩

/-- The settings with another spacing, which is at least one. -/
def withSpacing (config : Config) (value : Nat) : Config := { config with spacing := max value 1 }

/-- The settings with another range for guesses. -/
def withReparseRange (config : Config) (value : Nat) : Config :=
  { config with reparseRange := value }

/-- Smallest number of bytes that are searched at a time. -/
def minWindowUnit : Nat := 3000

/-- How many bytes are searched at a time. -/
def windowUnit (config : Config) : Except Fault Nat := do
  return max minWindowUnit (← checkedMul 4 config.spacing)

/-- How far from a checkpoint a style query may be to be answered from it. -/
def maxDistance (config : Config) (grammar : Grammar) : Except Fault Nat :=
  checkedMul 3 (max config.spacing grammar.maxExtend)

end Config

end Highlight
