/-
**The regions a position is nested in.**

A stack holds a frame for every region that has been entered and not left, below them all the root,
which is always there and is not stored. At most sixteen frames fit, the root among them:

* `PatternStack.push`: enters a region, unless the stack is full;
* `PatternStack.pop`: leaves the innermost region, if there is one;
* `PatternStack.style`: the style of the innermost frame whose pattern has one.

Two stacks are equal if they hold the same patterns with the same remembered texts; this is what
makes a checkpoint of use after an edit.
-/

import Highlight.Grammar.Basic
import Highlight.Text.Quoted

namespace Highlight

/-- A region that has been entered, with the text it remembers of how it was. -/
structure Frame where
  pattern : PatternId
  pushed : Option Text
  deriving DecidableEq, Inhabited

/-- The regions that have been entered and not left, innermost first. -/
structure PatternStack where
  regions : List Frame
  deriving DecidableEq, Inhabited

namespace PatternStack

/-- Largest number of frames, the root included. -/
def maxDepth : Nat := 16

/-- The stack of the root alone. -/
def root : PatternStack := ⟨[]⟩

/-- The frame below all others. -/
def rootFrame : Frame := ⟨rootPattern, none⟩

/-- Number of frames. -/
def depth (stack : PatternStack) : Nat := stack.regions.length + 1

/-- Whether no region has been entered. -/
def isRoot (stack : PatternStack) : Bool := stack.regions.isEmpty

/-- Whether no further region can be entered. -/
def isFull (stack : PatternStack) : Bool := maxDepth ≤ stack.depth

/-- The innermost frame. -/
def top (stack : PatternStack) : Frame := stack.regions.headD rootFrame

/-- All frames, the root first. -/
def frames (stack : PatternStack) : List Frame := rootFrame :: stack.regions.reverse

/-- Enters a region; nothing if the stack is full. -/
def push (stack : PatternStack) (frame : Frame) : Option PatternStack :=
  if stack.isFull then none else some ⟨frame :: stack.regions⟩

/-- Leaves the innermost region; nothing if there is none. -/
def pop (stack : PatternStack) : Option (Frame × PatternStack) :=
  match stack.regions with
  | [] => none
  | frame :: outer => some (frame, ⟨outer⟩)

/-- The stack outside of the innermost region, or the stack itself if there is none. -/
def outer (stack : PatternStack) : PatternStack := ⟨stack.regions.tail⟩

/-- The style of the first of some frames whose pattern has one. -/
def firstStyle (grammar : Grammar) : List Frame → Except Fault StyleId
  | [] => return defaultStyle
  | frame :: rest => do
    match (← grammar.pattern frame.pattern).style with
    | some style => return style
    | none => firstStyle grammar rest

/-- The style of what no pattern matches inside of the stack. -/
def style (stack : PatternStack) (grammar : Grammar) : Except Fault StyleId :=
  firstStyle grammar (stack.regions ++ [rootFrame])

/-- The stack in words: its patterns from the root on, with the texts they remember. -/
def describe (stack : PatternStack) : String :=
  let frame (frame : Frame) : String :=
    toString frame.pattern ++
      match frame.pushed with
      | some text => "(" ++ Text.quoted text.toString ++ ")"
      | none => ""
  "PatternStack[" ++ " > ".intercalate (stack.frames.map frame) ++ "]"

end PatternStack

end Highlight
