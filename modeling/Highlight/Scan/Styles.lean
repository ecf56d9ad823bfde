/-
**The styles of a text.**

* `StyleRow`: the styles of consecutive bytes, one for each;
* `StyleRow.paint`: what a token adds to them, its captures being laid over its own style;
* `Grammar.highlight`: the styles of a whole text, scanned from its start.
-/

import Highlight.Scan.Basic

namespace Highlight

/-- The styles of the bytes from `start` on. -/
structure StyleRow where
  start : Nat
  styles : Array StyleId
  deriving DecidableEq, Repr, Inhabited

namespace StyleRow

/-- The styles of no bytes. -/
def empty (start : Nat) : StyleRow := ⟨start, #[]⟩

/-- The position behind the last byte. -/
def stop (row : StyleRow) : Nat := row.start + row.styles.size

/-- Sets `count` entries from `index` on. -/
def set (style : StyleId) (index : Nat) : (count : Nat) → Array StyleId → Array StyleId
  | 0, styles => styles
  | count + 1, styles => set style (index + 1) count (styles.setIfInBounds index style)

/-- Gives the bytes `[start, stop)` a style, as far as they are not before the row. Bytes between the
row and them get it too. -/
def fill (row : StyleRow) (start stop : Nat) (style : StyleId) : StyleRow :=
  if stop ≤ row.start then row
  else
    let first := start - row.start
    let last := stop - row.start
    let missing := last - row.styles.size
    ⟨row.start, set style first (last - first)
      (row.styles.append (Array.replicate missing style))⟩

/-- Gives the bytes of a token their styles. -/
def paint (row : StyleRow) (token : Token) : StyleRow :=
  token.captures.foldl (fun row span => row.fill span.start span.stop span.style)
    (row.fill token.start token.stop token.style)

/-- The sink that gives the bytes of every token their styles. -/
def sink : Sink StyleRow := fun row token _ => .ok (row.paint token, .proceed)

end StyleRow

/-- The styles of a text, scanned from its start and searched `unit` bytes at a time. -/
def Grammar.highlight (grammar : Grammar) (text : Text) (unit : Nat) :
    Except Fault (Array StyleId) := do
  let (row, _, _) ← (Scanner.ofUnit grammar unit).run text StyleRow.sink text.size .initial (.empty 0)
  return row.styles

end Highlight
