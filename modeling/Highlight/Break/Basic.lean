/-
**Breaks: the places where a scan can be taken up.**

A break says that scanning may go on at a position with a stack, and which kind of step led there.
Breaks are known by the number of the slot they are kept in, which is given out again after they are
deleted.
-/

import Highlight.Scan.Stack

namespace Highlight

/-- The kinds of steps that lead to a break. -/
inductive BreakKind where
  /-- A region was entered. -/
  | opening
  /-- A region was left. -/
  | closing
  /-- Anything else. -/
  | inner
  deriving DecidableEq, Repr, Inhabited

/-- A place where a scan can be taken up. -/
structure Break where
  position : Nat
  kind : BreakKind
  stack : PatternStack
  deriving DecidableEq, Inhabited

/-- Number of the slot a break is kept in. -/
abbrev BreakId := Nat

namespace Break

/-- The break at the start of every text. -/
def first : Break := ⟨0, .inner, .root⟩

end Break

end Highlight
