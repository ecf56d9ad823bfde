/-
**Searching with regexes.**

All that a search needs of a regex is a `Matcher`: what it matches at a position. A search goes
through the positions from left to right and the first match ends it:

* `Matcher.search`: the leftmost match of a regex that starts in a range;
* `Matcher.searchAll`: the leftmost match of several regexes, the earlier regex at a tie;
* `Matcher.findAt`: the leftmost match that a caller accepts. After a match that is refused the
  search goes on behind the character it starts with.

The whole subject is visible to a match and a match can end anywhere in it; the range only bounds
where matches start.
-/

import Highlight.Regex.Match

namespace Highlight.Regex

/-- What a regex matches at a position of a subject, in a search that began at `origin`. -/
structure Matcher where
  attempt : (subject : Text) → (origin position : Nat) → SearchFlags → Option Match

instance : Inhabited Matcher := ⟨⟨fun _ _ _ _ => none⟩⟩

namespace Matcher

/-- The matcher that never matches. -/
def never : Matcher := ⟨fun _ _ _ _ => none⟩

/-- The position of a search after `position`. -/
def after (subject : Text) (position : Nat) : Nat :=
  if position < subject.size then
    if Text.isContinuation (subject.byteAt position) then position + 1 else subject.next position
  else position + 1

theorem lt_after (subject : Text) (position : Nat) : position < after subject position := by
  unfold after
  split
  · split
    · exact Nat.lt_succ_self position
    · exact subject.lt_next position
  · exact Nat.lt_succ_self position

/-- The first match, among those that `attempt` gives for the positions of a range, from left to
right. -/
def firstFrom {α : Type} (subject : Text) (attempt : Nat → Option α) (position stop : Nat) :
    Option α :=
  if position < stop then
    match attempt position with
    | some found => some found
    | none => firstFrom subject attempt (after subject position) stop
  else none
termination_by stop - position
decreasing_by
  have := lt_after subject position
  omega

/-- The leftmost match that starts in `[start, stop)`. -/
def search (matcher : Matcher) (subject : Text) (start stop : Nat) (flags : SearchFlags) :
    Option Match :=
  firstFrom subject (fun position => matcher.attempt subject start position flags) start stop

/-- The leftmost match of one of several regexes that starts in `[start, stop)`; the earlier regex
at a tie. -/
def searchAll {κ : Type} (matchers : List (κ × Matcher)) (subject : Text) (start stop : Nat)
    (flags : SearchFlags) : Option (κ × Match) :=
  (firstFrom subject (fun position => matchers.findSome? fun (key, matcher) =>
    (matcher.attempt subject start position flags).map fun found => (key, found)) start stop).filter
      fun (_, found) => found.start < stop

/-- What a search for an accepted match led to: the matches that were offered, in order, the last of
which may have been accepted. -/
structure Offers where
  refused : List Match
  accepted : Option Match
  deriving Inhabited, DecidableEq

/-- The leftmost match starting in `[start, stop)` that is accepted. `accept` is told how many
matches were offered before; after a match that it refuses the search goes on behind the character
which that match starts with. -/
def findAt (matcher : Matcher) (subject : Text) (start stop : Nat) (flags : SearchFlags)
    (accept : Nat → Match → Bool) (offered : List Match) : Except Fault Offers := do
  if start < stop then
    if start > subject.size then throw .searchStart
    match matcher.search subject start stop flags with
    | none => return ⟨offered.reverse, none⟩
    | some found =>
      if stop ≤ found.start then return ⟨offered.reverse, none⟩
      else if accept offered.length found then return ⟨offered.reverse, some found⟩
      else if ¬ subject.isBoundary found.start then throw .slice
      else
        let next := subject.next found.start
        if start < next then findAt matcher subject next stop flags accept (found :: offered)
        else throw .stalled
  else return ⟨offered.reverse, none⟩
termination_by stop - start

end Matcher

end Highlight.Regex
