/-
**Breaks where the machine gets to.**

* `Break.Visited`, `Break.LeadsTo`: a break that the machine gets to, and from one to another;
* `Break.visits`: what is asked of breaks if they are to tell where the machine gets to;
* `Break.suits_visits`: **wherever a scan reports a boundary such a break may be stored**, and at every
  boundary inside of text that no pattern matches.
-/

import Highlight.Proofs.Highlighter.Trail

namespace Highlight

variable {grammar : Grammar} {text : Text}

namespace Break

/-- The machine gets to a break from the start of the text. -/
def Visited (grammar : Grammar) (text : Text) (value : Break) : Prop :=
  ∃ styles, grammar.Walk text .initial styles value.spot

/-- The machine gets from one break to another. -/
def LeadsTo (grammar : Grammar) (text : Text) (value other : Break) : Prop :=
  ∃ styles, grammar.Walk text value.spot styles other.spot

/-- Up to the frontier the machine gets to the breaks, and old breaks that may be relied on lead to
each other and are `kept`. -/
def visits (grammar : Grammar) (text : Text) (kept : Break → Prop) : Demands :=
  ⟨Visited grammar text, LeadsTo grammar text, kept, fun _ => True⟩

theorem visited_first : first.Visited grammar text := ⟨[], .refl _⟩

theorem Visited.leads {value other : Break} (visited : value.Visited grammar text)
    (leads : value.LeadsTo grammar text other) : other.Visited grammar text := by
  obtain ⟨styles, walk⟩ := visited
  obtain ⟨rest, further⟩ := leads
  exact ⟨styles ++ rest, walk.trans further⟩

section Lawful

variable (wellFormed : grammar.WellFormed) (isLocal : grammar.Local) (held : text.Held)
include wellFormed isLocal held

theorem Visited.good {value : Break} (visited : value.Visited grammar text) :
    value.spot.Good grammar text := by
  obtain ⟨styles, walk⟩ := visited
  exact (walk.leads wellFormed isLocal held (Spot.good_initial grammar text)).1

/-- The machine gets from a break to every later one that it gets to. -/
theorem Visited.leadsTo {value other : Break} (visited : value.Visited grammar text)
    (visitedToo : other.Visited grammar text) (before : value.position < other.position) :
    value.LeadsTo grammar text other := by
  have goodOther := visitedToo.good wellFormed isLocal held
  obtain ⟨styles, walk⟩ := visited
  obtain ⟨others, walkToo⟩ := visitedToo
  rcases walk.meet walkToo with ⟨rest, further, -⟩ | ⟨rest, further, -⟩
  · exact ⟨rest, further⟩
  · have length := (further.leads wellFormed isLocal held goodOther).2
    exact absurd before (by
      show ¬ value.spot.position < other.spot.position
      omega)

/-- A break where the machine gets to may be stored behind any other one. -/
theorem Visited.takes {value : Break} (visited : value.Visited grammar text) (kept : Break → Prop)
    (spacing : Nat) (near : Nat → Prop) :
    (visits grammar text kept).Takes grammar text spacing True near value :=
  ⟨visited.good wellFormed isLocal held, visited, fun _ visitedFrontier _ before _ =>
    visitedFrontier.leadsTo wellFormed isLocal held visited before⟩

/-- **The moves of a scan lead to breaks where the machine gets to.** -/
theorem suits_visits (kept : Break → Prop) (spacing : Nat) :
    Pass.Suits grammar text (grammar.Leg text)
      (fun state => ∃ styles, grammar.Walk text .initial styles state.spot)
      (visits grammar text kept) spacing True where
  makes := Grammar.makes_leg wellFormed isLocal held
  starts := by
    rintro value - ⟨styles, walk⟩
    exact ⟨styles, walk⟩
  move := by
    rintro state move - ⟨styles, walk⟩ leg
    exact ⟨_, walk.trans leg.walk⟩
  inside := by
    rintro state move token good ⟨styles, walk⟩ leg delivered plain place boundary behind before
    obtain ⟨rest, further⟩ := (leg.inside token delivered plain place boundary behind before).walk
    exact Visited.takes wellFormed isLocal held ⟨_, walk.trans further⟩ kept spacing _
  across := by
    rintro state move token good ⟨styles, walk⟩ leg delivered -
    have further := walk.trans leg.walk
    rw [leg.spot_eq delivered] at further
    exact Visited.takes wellFormed isLocal held ⟨_, further⟩ kept spacing _
  passesOn := fun visited leads => Visited.leads visited leads
  last := fun _ _ _ => trivial

end Lawful

end Break

end Highlight
