/-
**Sets of code points as the points where membership changes.**

A set of code points is kept as the increasing list of the code points at which membership flips,
so a set of few ranges is small and membership is a binary search:

* `Ranges.contains`: a code point is in the set if an odd number of flips lies at or before it;
* `Ranges.ofText`: a set from the written distances between its flips.
-/

namespace Highlight.Unicode

/-- Number of entries of an increasing array that are at most `value`, of which `low` are known to
be and all from `high` on are known not to be. -/
def countUpTo (entries : Array Nat) (value low high : Nat) : Nat :=
  if h : low < high then
    let middle := (low + high) / 2
    if entries.getD middle 0 ≤ value then countUpTo entries value (middle + 1) high
    else countUpTo entries value low middle
  else low
termination_by high - low
decreasing_by all_goals omega

/-- Reads whole numbers that are separated by blanks. -/
def numbers (text : String) : Array Nat :=
  let step : Array Nat × Option Nat → Char → Array Nat × Option Nat
    | (out, pending), char =>
      if char.isDigit then (out, some (pending.getD 0 * 10 + (char.toNat - 48)))
      else match pending with
        | some value => (out.push value, none)
        | none => (out, none)
  let (out, pending) := text.toList.foldl step (#[], none)
  match pending with
  | some value => out.push value
  | none => out

/-- A set of code points, as the code points where membership changes. -/
structure Ranges where
  flips : Array Nat

namespace Ranges

/-- Whether a code point is in the set. -/
def contains (ranges : Ranges) (code : Nat) : Bool :=
  countUpTo ranges.flips code 0 ranges.flips.size % 2 == 1

/-- The set whose flips lie at the sums of the distances that are written in the lines. -/
def ofText (lines : List String) : Ranges :=
  let distances := numbers (" ".intercalate lines)
  ⟨(distances.foldl (fun (out, last) distance => (out.push (last + distance), last + distance))
    ((#[] : Array Nat), 0)).1⟩

end Ranges

end Highlight.Unicode
