/-
**Tokens, and the states a scan goes through.**

A scan cuts a text into tokens that follow each other without a gap. Between two tokens it is in a
state that it can be taken up from:

* `ScanState`: a position, the regions around it, and where a match of no bytes was last used;
* `Token`: a piece of the text with its style, and the step that led over it;
* `Sink`: what takes the tokens, each with the state behind it, and may call a halt.
-/

import Highlight.Break.Basic
import Highlight.Text.Change

namespace Highlight

/-- Where a scan is, and what it is nested in. -/
structure ScanState where
  position : Nat
  stack : PatternStack
  /-- Where a match of no bytes was last used, which happens once at each position. -/
  emptyAt : Option Nat
  deriving DecidableEq, Inhabited

namespace ScanState

/-- The state of a scan that begins at a position inside of some regions. -/
def startingAt (position : Nat) (stack : PatternStack) : ScanState := ⟨position, stack, none⟩

/-- The state of a scan that begins at the start of a text. -/
def initial : ScanState := startingAt 0 .root

/-- The state of a scan that is taken up at a break. -/
def ofBreak (value : Break) : ScanState := startingAt value.position value.stack

/-- The state moved along with the text around it. -/
def shift (state : ScanState) (distance : Int) : ScanState :=
  { state with
    position := shifted state.position distance
    emptyAt := state.emptyAt.map fun position => shifted position distance }

end ScanState

/-- A piece of a text with one style. -/
structure StyledSpan where
  start : Nat
  stop : Nat
  style : StyleId
  deriving DecidableEq, Repr, Inhabited

/-- What a scan makes of a piece of a text. -/
structure Token where
  start : Nat
  stop : Nat
  style : StyleId
  /-- Pieces with styles of their own, a later one over an earlier one. -/
  captures : List StyledSpan
  /-- The step that led over the token. -/
  kind : BreakKind
  /-- Whether no pattern matched here, so that the scan could be taken up anywhere inside. -/
  plain : Bool
  deriving DecidableEq, Repr, Inhabited

/-- Whether a scan is to go on. -/
inductive Flow where
  | proceed
  | halt
  deriving DecidableEq, Repr, Inhabited

/-- What takes the tokens of a scan. It is given each token with the state behind it. -/
def Sink (σ : Type) : Type := σ → Token → ScanState → Except Fault (σ × Flow)

end Highlight
