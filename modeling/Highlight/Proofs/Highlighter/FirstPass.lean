/-
**In the first pass over a text there is one place only for the next break.**

Each interruption moves the search windows, so that the scan reports other boundaries. But the next
break is always stored at the first place, at least a spacing behind the frontier, where the machine
lands:

* `Break.Landed`, `Break.Follows`: a place where the machine lands, and the first one that is far
  enough behind a break;
* `Break.Follows.unique`: there is one such place only;
* `Break.suits_follows`: **where a checkpoint is stored without old breaks, it is that place**, at the
  end of a token as well as inside of text that no pattern matches;
* `Highlighter.processAll`: slices of work that end whenever their deadlines say so.
-/

import Highlight.Proofs.Grammar.Brackets
import Highlight.Proofs.Highlighter.Charted
import Highlight.Proofs.Highlighter.Pass

namespace Highlight

open BreakIndex (Entry)

variable {grammar : Grammar} {text : Text} {spacing : Nat}

/-! ### The next place for a break -/

namespace Break

/-- The machine lands at a break on its way from the start of the text. -/
def Landed (grammar : Grammar) (text : Text) (value : Break) : Prop :=
  grammar.Lands text .initial value.kind value.spot

/-- A break is at the first place, at least a spacing behind another one, where the machine lands. -/
structure Follows (grammar : Grammar) (text : Text) (spacing : Nat) (value next : Break) : Prop where
  landed : next.Landed grammar text
  far : value.position + spacing ≤ next.position
  least : ∀ other : Break, other.Landed grammar text → value.position + spacing ≤ other.position →
    next.position ≤ other.position

/-- Up to the frontier the machine gets to the breaks, each of which is at the first place behind the
one before that is far enough. None is far enough behind the last one. -/
def follows (grammar : Grammar) (text : Text) (spacing : Nat) : Demands :=
  ⟨Visited grammar text, Follows grammar text spacing, fun _ => True,
    fun value => text.size < value.position + spacing⟩

theorem Landed.visited {value : Break} (landed : value.Landed grammar text) :
    value.Visited grammar text := Grammar.Lands.walk landed

section Lawful

variable (wellFormed : grammar.WellFormed) (isLocal : grammar.Local) (held : text.Held)
include wellFormed isLocal held

/-- Behind a break there is one place only for the next one. -/
theorem Follows.unique {value next other : Break} (follows : value.Follows grammar text spacing next)
    (followsToo : value.Follows grammar text spacing other) : next = other := by
  have same : next.position = other.position :=
    le_antisymm (follows.least other followsToo.landed followsToo.far)
      (followsToo.least next follows.landed follows.far)
  obtain ⟨kind, spot⟩ := Grammar.Lands.unique wellFormed isLocal held
    (Spot.good_initial grammar text) follows.landed followsToo.landed same
  have stack : next.stack = other.stack := congrArg Spot.stack spot
  cases next
  cases other
  simp only at same kind stack
  rw [same, kind, stack]

/-- Behind a break that is near the end of the text there is no place for another one. -/
theorem not_follows {value next : Break} (ended : text.size < value.position + spacing) :
    ¬ value.Follows grammar text spacing next := by
  intro follows
  have inside : next.position ≤ text.size :=
    (follows.landed.visited.good wellFormed isLocal held).position_le
  have far := follows.far
  omega

/-- Inside of text that no pattern matches the next break is at a boundary, not behind the first one
that is far enough. -/
theorem takes_inside {value : Break} (landed : value.Landed grammar text) :
    (follows grammar text spacing).Takes grammar text spacing False
      (fun reached => value.position ≤ text.ceil (reached + spacing)) value where
  good := landed.visited.good wellFormed isLocal held
  reached := landed.visited
  joined := by
    intro frontier _ near _ far
    refine ⟨landed, far.resolve_right id, fun other landedToo farToo => near.trans ?_⟩
    have good := landedToo.visited.good wellFormed isLocal held
    have inside : other.position ≤ text.size := good.position_le
    exact (text.isLeast_ceil (farToo.trans inside)).2 ⟨good.boundary, farToo⟩

/-- Behind a hop the next break is where the hop ends, if none has been due before it. -/
theorem takes_over {before : Spot} {styles : List StyleId} {value : Break}
    (walk : grammar.Walk text .initial styles before) (further : before.position < value.position)
    (hops : grammar.Hops text before value.kind value.spot) :
    (follows grammar text spacing).Takes grammar text spacing False
      (fun reached => before.position < reached + spacing) value where
  good := Visited.good wellFormed isLocal held ((hops.lands further).after walk).walk
  reached := ((hops.lands further).after walk).walk
  joined := by
    intro frontier _ near _ far
    refine ⟨(hops.lands further).after walk, far.resolve_right id, fun other landed farToo => ?_⟩
    rcases Grammar.Lands.le_of_hops wellFormed isLocal held (Spot.good_initial grammar text) landed
      walk hops with earlier | later
    · change other.position ≤ before.position at earlier
      omega
    · exact later

/-- **Where a checkpoint is stored without old breaks, it is the place that follows the frontier.** -/
theorem suits_follows (spacing : Nat) :
    Pass.Suits grammar text (grammar.Leg text)
      (fun state => ∃ styles, grammar.Walk text .initial styles state.spot)
      (follows grammar text spacing) spacing False where
  makes := Grammar.makes_leg wellFormed isLocal held
  starts := by
    rintro value - ⟨styles, walk⟩
    exact ⟨styles, walk⟩
  move := by
    rintro state move - ⟨styles, walk⟩ leg
    exact ⟨_, walk.trans leg.walk⟩
  inside := by
    rintro state move token good ⟨styles, walk⟩ leg delivered plain place boundary behind before
    have landed : (Break.mk place .inner state.stack).Landed grammar text :=
      (leg.inside token delivered plain place boundary behind before).after walk
    exact takes_inside wellFormed isLocal held landed
  across := by
    rintro state move token good ⟨styles, walk⟩ leg delivered notPlain
    have hops := leg.hops token delivered notPlain
    rw [leg.spot_eq delivered] at hops
    exact takes_over wellFormed isLocal held walk (leg.lt delivered) hops
  passesOn := fun _ follows => Landed.visited (Follows.landed follows)
  last := fun _ _ ended => ended

end Lawful

end Break

/-! ### Schedules -/

namespace Highlighter

/-- Works for one slice of time after the other. -/
def processAll (text : Text) : List Deadline → Highlighter → Except Fault Highlighter
  | [], highlighter => .ok highlighter
  | deadline :: rest, highlighter => do
    let (_, after) ← highlighter.process text deadline
    processAll text rest after

end Highlighter

end Highlight
