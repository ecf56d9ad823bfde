/-
**A first pass that runs out of numbers for its breaks.**

A long text may have more places for breaks than there are numbers. The break for which no number is left
is linked as the first one, and the index goes round. From then on no pass changes it: the scan goes on
behind all breaks, where nothing can be stored any more, or begins again at the start, where it meets the
break next to the first:

* `Pass.Round`: what a first pass is like then;
* `Pass.Round.checkpoint_met`, `Pass.Round.checkpoint_ne_ok`: what its checkpoints can do, before the
  break next to the first and behind all breaks;
* `Pass.Packed`, `Pass.Packed.checkpoint_full`: a first pass that has numbers left, and the checkpoint that
  finds none;
* `Pass.checkpoint_first`: **a checkpoint of a first pass stores the break that follows, or it runs out of
  numbers**;
* `Pass.sink_first`: **so does a whole scan**.
-/

import Highlight.Proofs.Break.Ring
import Highlight.Proofs.Highlighter.FirstPass

namespace Highlight.Pass

open BreakIndex (Entry)

variable {grammar : Grammar} {text : Text} {spacing : Nat} {index : BreakIndex} {frontier : BreakId}
  {restartEnd : Option Nat} {rest : List Entry}

/-- The breaks are linked in a circle. There are as many as numbers, each at the first place behind the one
before that is far enough, and there is a place for one more. -/
structure Round (grammar : Grammar) (text : Text) (spacing : Nat) (index : BreakIndex)
    (frontier : BreakId) (restartEnd : Option Nat) (rest : List Entry) : Prop where
  ring : index.Ring rest
  last : index.last = BreakIndex.first
  slots : index.nodes.size = BreakIndex.idRange + 1
  full : rest.length + 1 = BreakIndex.idRange
  chain : (Break.first :: rest.map Prod.snd).IsChain (Break.Follows grammar text spacing)
  more : ∃ final value, final ∈ (Break.first :: rest.map Prod.snd).getLast? ∧
    final.Follows grammar text spacing value
  frontier : frontier = BreakIndex.first
  restartEnd : restartEnd = none

variable {plan : PassPlan} {pass after : Pass} {value : Break} {flow : Flow}

namespace Round

variable (round : Round grammar text plan.spacing pass.breaks pass.frontier pass.restartEnd rest)

/-- There is a break next to the first. -/
theorem exists_next (round : Round grammar text spacing index frontier restartEnd rest) :
    ∃ id next others, rest = (id, next) :: others ∧ Break.first.Follows grammar text spacing next := by
  obtain _ | ⟨⟨id, next⟩, others⟩ := rest
  · have none := round.full
    cases none
  · have chain := round.chain
    rw [List.map_cons, List.isChain_cons_cons] at chain
    exact ⟨id, next, others, rfl, chain.1⟩

include round

/-- It is the next old break of the pass. -/
theorem isOldPending_eq {id : BreakId} {next : Break} {others : List Entry}
    (here : rest = (id, next) :: others) (position : Nat) :
    pass.isOldPending position = .ok (decide (next.position ≤ position)) := by
  subst here
  unfold isOldPending
  rw [round.frontier, round.ring.next_eq, BreakIndex.firstId_cons, Fault.ok_bind]
  simp only [round.ring.position_eq]
  rfl

/-- **Before the break next to the first nothing is stored, and there the pass ends.** -/
theorem checkpoint_met {near : Nat → Prop} (wellFormed : grammar.WellFormed)
    (isLocal : grammar.Local) (held : text.Held) (spaced : 0 < plan.spacing)
    (takes : (Break.follows grammar text plan.spacing).Takes grammar text plan.spacing False near value)
    (isNear : near 0) (went : checkpoint plan pass value = .ok (after, flow)) :
    flow = .proceed ∧ after = pass ∧ value.position < plan.spacing ∨
      flow = .halt ∧ after = { pass with interrupt := some .fixedPoint } := by
  obtain ⟨id, next, others, here, follows⟩ := round.exists_next
  have far := follows.far
  change 0 + plan.spacing ≤ next.position at far
  unfold checkpoint at went
  simp only [round.isOldPending_eq here, round.frontier, round.ring.position_first, Fault.ok_bind,
    checkedSub_eq_ok (Nat.zero_le _), Nat.sub_zero, decide_eq_true_eq] at went
  by_cases early : value.position < plan.spacing ∧ ¬ next.position ≤ value.position
  · rw [if_pos early] at went
    cases went
    exact Or.inl ⟨rfl, rfl, early.1⟩
  · rw [if_neg early] at went
    have due : 0 + plan.spacing ≤ value.position := by omega
    have followsToo : Break.first.Follows grammar text plan.spacing value :=
      takes.joined Break.first Break.visited_first isNear (by show 0 < value.position; omega)
        (Or.inl due)
    obtain rfl := follows.unique wellFormed isLocal held followsToo
    have met := (here ▸ round.ring).setBreak_met
    have last := round.last
    have unmarked := round.restartEnd
    have atFirst := round.frontier
    obtain ⟨breaks, frontier, restartEnd, looks, interrupt⟩ := pass
    simp only at last unmarked atFirst met went
    subst unmarked atFirst
    simp only [isRestarted, met, Fault.ok_bind, last] at went
    cases went
    exact Or.inr ⟨rfl, rfl⟩

/-- **Behind all breaks no checkpoint goes well.** -/
theorem checkpoint_ne_ok {outcome : Pass × Flow}
    (behind : ∀ entry ∈ rest, entry.2.position < value.position) :
    checkpoint plan pass value ≠ .ok outcome := by
  obtain ⟨id, next, others, here, -⟩ := round.exists_next
  have passed := behind (id, next) (by simp [here])
  intro went
  unfold checkpoint at went
  simp only [round.isOldPending_eq here, round.frontier, round.ring.position_first, Fault.ok_bind,
    checkedSub_eq_ok (Nat.zero_le _), Nat.sub_zero, decide_eq_true_eq] at went
  rw [if_neg (fun early => early.2 passed.le)] at went
  have atFirst := round.frontier
  obtain ⟨breaks, frontier, restartEnd, looks, interrupt⟩ := pass
  simp only at atFirst went
  subst atFirst
  obtain ⟨⟨result, index⟩, stored, -⟩ := Fault.bind_eq_ok.mp went
  exact round.ring.setBreak_ne_ok (fun entry member => ⟨(behind entry member).le,
    fun same => (behind entry member).ne (congrArg Break.position same)⟩)
    ((Nat.zero_le _).trans_lt passed) stored

/-- The places to choose from are those where the break next to the first is due, and where it is. -/
theorem candidate?_eq {id : BreakId} {next : Break} {others : List Entry}
    (here : rest = (id, next) :: others) (start stop : Nat) :
    candidate? plan pass start stop = do
      let due := plan.text.ceil (← checkedAdd 0 plan.spacing)
      return ([due, next.position].filter fun place =>
        decide (start < place) && decide (place < stop)).min? := by
  subst here
  unfold candidate?
  simp only [round.frontier, round.ring.position_first, round.ring.next_eq, BreakIndex.firstId_cons,
    round.ring.position_eq, Fault.ok_bind]
  rfl

/-- **The checkpoints inside of unmatched text leave all as it is**, or end the pass at the break next to
the first. A scan that does not begin before the place where this one is due is behind it. -/
theorem checkpointRun_met {start stop fuel : Nat} {stack : PatternStack} (wellFormed : grammar.WellFormed)
    (isLocal : grammar.Local) (held : text.Held) (spaced : 0 < plan.spacing)
    (sameText : plan.text = text) (ordered : start < stop) (inText : stop ≤ text.size)
    (begins : start < plan.spacing ∨ ∃ value : Break, value.Landed grammar text ∧
      plan.spacing ≤ value.position ∧ value.position ≤ start)
    (inside : ∀ place, text.isBoundary place = true → start < place → place < stop →
      (Break.follows grammar text plan.spacing).Takes grammar text plan.spacing False
        (fun reached => place ≤ text.ceil (reached + plan.spacing)) ⟨place, .inner, stack⟩)
    (went : checkpointRun plan start stop stack fuel pass = .ok (after, flow)) :
    flow = .proceed ∧ after = pass ∧
        (start < plan.spacing → stop ≤ text.ceil (0 + plan.spacing)) ∨
      flow = .halt ∧ after = { pass with interrupt := some .fixedPoint } := by
  obtain ⟨id, next, others, here, follows⟩ := round.exists_next
  have far := follows.far
  change 0 + plan.spacing ≤ next.position at far
  have good := follows.landed.visited.good wellFormed isLocal held
  have nextIn : next.position ≤ text.size := good.position_le
  have notBehind : text.ceil (0 + plan.spacing) ≤ next.position :=
    (text.isLeast_ceil (far.trans nextIn)).2 ⟨good.boundary, far⟩
  induction fuel with
  | zero => cases went
  | succ fuel ih =>
    rw [checkpointRun, round.candidate?_eq here, sameText] at went
    obtain ⟨candidate, found, went⟩ := Fault.bind_eq_ok.mp went
    obtain ⟨sum, added, found⟩ := Fault.bind_eq_ok.mp found
    obtain ⟨-, rfl⟩ := checkedAdd_eq_ok_iff.mp added
    rcases begins with early | ⟨value, landed, due, before⟩
    · have startIn : start < text.size := ordered.trans_le inText
      have least := Text.min_le_ceil text (0 + plan.spacing)
      have spec : IsCandidate text 0 (text.ceil (0 + plan.spacing)) start stop _ :=
        isCandidate_min? (by omega) (Text.isBoundary_ceil text _) (Nat.zero_le _) [next.position]
          fun place member => by
            rw [List.mem_singleton.mp member]
            exact ⟨good.boundary, Nat.zero_le _⟩
      rw [Except.ok.inj found] at spec
      cases candidate with
      | none =>
        cases went
        exact Or.inl ⟨rfl, rfl, fun _ => spec⟩
      | some place =>
        obtain ⟨beyond, inFront, boundary, -, near⟩ := spec
        obtain ⟨⟨middle, goesOn⟩, checked, went⟩ := Fault.bind_eq_ok.mp went
        rcases round.checkpoint_met wellFormed isLocal held spaced (inside place boundary beyond inFront)
          near checked with ⟨rfl, same, -⟩ | ⟨rfl, same⟩
        · exact ih (same ▸ went)
        · cases went
          exact Or.inr ⟨rfl, same⟩
    · -- The break next to the first is not behind the start.
      have passed := (follows.least value landed (by show 0 + plan.spacing ≤ _; omega)).trans before
      have between := (min?_between (Except.ok.inj found)).1
      cases candidate with
      | none =>
        cases went
        exact Or.inl ⟨rfl, rfl, fun early => absurd early (by omega)⟩
      | some place =>
        obtain ⟨offered, beyond, -⟩ := between place rfl
        simp only [List.mem_cons, List.not_mem_nil, or_false] at offered
        omega

end Round

/-! ### Checkpoints of a first pass -/

/-- There are numbers for all slots of a first pass, none of them is free, and no old break is expected. -/
structure Packed (pass : Pass) : Prop where
  numbered : pass.breaks.Numbered
  free : pass.breaks.free = []
  restartEnd : pass.restartEnd = none

variable {low : Nat} {near : Nat → Prop}

/-- A checkpoint of a first pass that finds a number for its break leaves no slot free. -/
theorem Packed.checkpoint {behind : List Entry} {reached : Break} {outcome : Pass × Flow}
    (packed : Packed pass) (holds : pass.breaks.Holds (behind ++ [(pass.frontier, reached)]))
    (room : HasRoom plan pass reached [] value)
    (went : Pass.checkpoint plan pass value = .ok outcome) : Packed outcome.1 := by
  obtain ⟨other, wentToo, checks⟩ := exists_checks holds room (le_of_checkpoint holds went)
  cases went.symm.trans wentToo
  cases checks with
  | notDue early => exact packed
  | @inserted passed rest breaks id due split unlike before holdsAfter =>
    obtain ⟨rfl, rfl⟩ := List.append_eq_nil_iff.mp split.symm
    have few : pass.breaks.nodes.size < BreakIndex.idRange := by
      have far := due.resolve_right fun passed => nomatch passed.choose_spec.1
      exact (room far fun _ atHead => nomatch atHead).resolve_left fun some => some packed.free
    have slots := holds.length_add_free
    have slotsAfter := holdsAfter.length_add_free
    have oneMore := (grows_of_checkpoint went).size_le
    rw [breaks_advanced] at oneMore
    simp only [packed.free, List.length_append, List.length_cons, List.length_nil] at slots slotsAfter
    refine ⟨?_, ?_, ?_⟩
    · rw [breaks_advanced]
      exact oneMore.trans few
    · rw [breaks_advanced]
      exact List.eq_nil_of_length_eq_zero (by omega)
    · rw [restartEnd_advanced, packed.restartEnd]
      rfl
  | reused due split => exact absurd split.symm (by simp)
  | met due split => exact absurd split.symm (by simp)

/-- **Where there is no number for the break that follows, the breaks are linked in a circle**, and the scan
is behind all of them. -/
theorem Packed.checkpoint_full {behind : List Entry} {reached : Break} {outcome : Pass × Flow}
    (packed : Packed pass)
    (trail : Trail grammar text (Break.follows grammar text plan.spacing) pass.breaks pass.frontier
      pass.restartEnd behind reached [])
    (full : pass.breaks.nodes.size = BreakIndex.idRange)
    (joined : reached.Follows grammar text plan.spacing value)
    (further : reached.position < value.position)
    (went : Pass.checkpoint plan pass value = .ok outcome) :
    ∃ rest, Round grammar text plan.spacing outcome.1.breaks outcome.1.frontier outcome.1.restartEnd
        rest ∧ (∀ entry ∈ rest, entry.2.position < value.position) ∧
      (outcome.2 = .proceed ∧ outcome.1.interrupt = pass.interrupt ∨
        outcome.2 = .halt ∧ outcome.1.interrupt ≠ none) := by
  obtain ⟨start, rest, split⟩ := trail.holds.starts
  have starts := trail.starts
  rw [split] at starts
  cases starts
  obtain ⟨index, stored, ring, last, slots⟩ := trail.holds.ring_of_setBreak split full packed.free
    further.le (isRestarted pass.restartEnd value.position)
  have length := trail.holds.length_add_free
  rw [packed.free, split, full] at length
  cases went.symm.trans (checkpoint_eq_stored trail.holds further.le (Or.inl joined.far) stored)
  have values : Break.first :: rest.map Prod.snd =
      (behind ++ [(pass.frontier, reached)]).map Prod.snd := by
    rw [split]
    rfl
  have round : Round grammar text plan.spacing index BreakIndex.first none rest := by
    refine ⟨ring, last, slots, length, ?_, ⟨reached, value, ?_, joined⟩, rfl, rfl⟩
    · rw [values]
      exact (List.isChain_map _).mpr trail.passed
    · rw [values, List.map_append, List.map_singleton, List.getLast?_concat]
      rfl
  refine ⟨rest, ?_, fun entry member => ?_, ?_⟩
  · show Round _ _ _ (advanced _ _ _ _ _).1.breaks (advanced _ _ _ _ _).1.frontier
      (advanced _ _ _ _ _).1.restartEnd rest
    rw [breaks_advanced, frontier_advanced, restartEnd_advanced, packed.restartEnd]
    exact round
  · have upTo : entry ∈ behind ++ [(pass.frontier, reached)] := by
      rw [split]
      exact List.mem_cons_of_mem _ member
    rcases List.mem_append.mp upTo with inBehind | here
    · exact (trail.sorted.before entry inBehind).trans further
    · rw [List.mem_singleton.mp here]
      exact further
  · refine (interrupt_advanced plan pass index BreakIndex.first _).imp_right ?_
    exact And.imp_right fun late running => Option.some_ne_none _ (late.symm.trans running)

/-- **A checkpoint of a first pass stores the break that follows the frontier**, or there is no number for
it, and the breaks are linked in a circle then. -/
theorem checkpoint_first {outcome : Pass × Flow} (spaced : 0 < plan.spacing) (packed : Packed pass)
    (passesOn : ∀ {value other : Break}, value.Visited grammar text →
      value.Follows grammar text plan.spacing other → other.Visited grammar text)
    (trails : Trails grammar text (Break.follows grammar text plan.spacing) False
      (fun place => low ≤ place ∧ place ≤ value.position ∧ near place) pass)
    (takes : (Break.follows grammar text plan.spacing).Takes grammar text plan.spacing False near value)
    (went : Pass.checkpoint plan pass value = .ok outcome) :
    (Packed outcome.1 ∧ Checked grammar text (Break.follows grammar text plan.spacing) False low
        value.position (fun place => value.position < place + plan.spacing) pass.interrupt outcome) ∨
      ∃ rest, Round grammar text plan.spacing outcome.1.breaks outcome.1.frontier outcome.1.restartEnd
          rest ∧ (∀ entry ∈ rest, entry.2.position < value.position) ∧
        (outcome.2 = .proceed ∧ outcome.1.interrupt = pass.interrupt ∨
          outcome.2 = .halt ∧ outcome.1.interrupt ≠ none) := by
  have ⟨behind, reached, ahead, trail, old, above, below, isNear⟩ := trails
  obtain rfl : ahead = [] := not_not.mp old
  by_cases room : HasRoom plan pass reached [] value
  · have packedAfter := packed.checkpoint trail.holds room went
    exact Or.inl ⟨packedAfter, checkpoint_spec spaced passesOn trails takes went packedAfter.numbered⟩
  · -- The index is full, and the break is due.
    obtain ⟨far, full⟩ : reached.position + plan.spacing ≤ value.position ∧
        pass.breaks.nodes.size = BreakIndex.idRange := by
      refine ⟨by_contra fun near => room fun far _ => absurd far near, ?_⟩
      refine le_antisymm packed.numbered (not_lt.mp fun few => room fun _ _ => Or.inr few)
    have further : reached.position < value.position := by omega
    have joined : reached.Follows grammar text plan.spacing value :=
      takes.joined reached trail.reached_here isNear further (Or.inl far)
    exact Or.inr (packed.checkpoint_full trail full joined further went)

/-! ### Scans of a first pass -/

/-- What is true of a first pass as long as it goes on. If it has run out of numbers then the scan is
before the break next to the first or behind all breaks. -/
structure Going (grammar : Grammar) (text : Text) (spacing low : Nat) (pass : Pass) (state : ScanState) :
    Prop where
  running : pass.interrupt = none
  scanned : ∃ styles, grammar.Walk text .initial styles state.spot
  breaks : Packed pass ∧ Trails grammar text (Break.follows grammar text spacing) False
      (fun place => low ≤ place ∧ place ≤ state.position ∧ state.position < place + spacing) pass ∨
    ∃ rest, Round grammar text spacing pass.breaks pass.frontier pass.restartEnd rest ∧
      (state.position < spacing ∨ ∀ entry ∈ rest, entry.2.position ≤ state.position)

theorem Halted.ended {demands : Demands} {early : Prop} {high : Nat}
    (halted : Halted grammar text demands early low high pass) : pass.interrupt ≠ none := by
  rcases halted with ⟨late, -⟩ | ⟨met, -⟩
  · exact late ▸ Option.some_ne_none _
  · exact met ▸ Option.some_ne_none _

/-- What is true of a first pass that has ended early. -/
structure Over (pass : Pass) (grammar : Grammar) (text : Text) (spacing : Nat) : Prop where
  ended : pass.interrupt ≠ none
  breaks : Packed pass ∨
    ∃ rest, Round grammar text spacing pass.breaks pass.frontier pass.restartEnd rest

/-- What is true of a first pass after a step that leads to `state`. -/
def Steps (grammar : Grammar) (text : Text) (spacing low : Nat) (state : ScanState) : Pass × Flow → Prop
  | (pass, .proceed) => Going grammar text spacing low pass state
  | (pass, .halt) => pass.Over grammar text spacing

/-- A scan begins before the first place that is far enough, or behind a place where the machine lands that
is. -/
theorem begins_of_trails {start : Nat}
    (trails : Trails grammar text (Break.follows grammar text spacing) False
      (fun place => low ≤ place ∧ place ≤ start ∧ start < place + spacing) pass) :
    start < spacing ∨ ∃ value : Break, value.Landed grammar text ∧ spacing ≤ value.position ∧
      value.position ≤ start := by
  obtain ⟨behind, reached, ahead, trail, -, -, before, near⟩ := trails
  rcases List.eq_nil_or_concat' behind with rfl | ⟨front, entry, rfl⟩
  · obtain rfl : reached = Break.first := congrArg Prod.snd (Option.some_inj.mp trail.starts)
    exact Or.inl (near.trans_eq (Nat.zero_add _))
  · have passed := trail.passed
    rw [List.append_assoc, List.singleton_append] at passed
    have follows := (List.isChain_append.mp passed).2.1
    rw [List.isChain_cons_cons] at follows
    exact Or.inr ⟨reached, follows.1.landed, (Nat.le_add_left _ _).trans follows.1.far, before⟩

section Scans

variable (wellFormed : grammar.WellFormed) (isLocal : grammar.Local) (held : text.Held)
  (spaced : 0 < plan.spacing) (sameText : plan.text = text)
include wellFormed isLocal held spaced sameText

/-- The checkpoints inside of unmatched text store the breaks that follow each other. If they run out of
numbers then the breaks are linked in a circle, and all of them are in front. -/
theorem checkpointRun_first {start stop fuel : Nat} {stack : PatternStack} {outcome : Pass × Flow}
    (ordered : start < stop) (inText : stop ≤ text.size)
    (begins : start < plan.spacing ∨ ∃ value : Break, value.Landed grammar text ∧
      plan.spacing ≤ value.position ∧ value.position ≤ start)
    (inside : ∀ place, text.isBoundary place = true → start < place → place < stop →
      (Break.follows grammar text plan.spacing).Takes grammar text plan.spacing False
        (fun reached => place ≤ text.ceil (reached + plan.spacing)) ⟨place, .inner, stack⟩)
    (packed : Packed pass)
    (trails : Trails grammar text (Break.follows grammar text plan.spacing) False
      (fun place => low ≤ place ∧ place ≤ stop ∧ start < place + plan.spacing) pass)
    (went : checkpointRun plan start stop stack fuel pass = .ok outcome) :
    (Packed outcome.1 ∧ Checked grammar text (Break.follows grammar text plan.spacing) False low stop
        (fun place => stop ≤ text.ceil (place + plan.spacing)) pass.interrupt outcome) ∨
      ∃ rest, Round grammar text plan.spacing outcome.1.breaks outcome.1.frontier outcome.1.restartEnd
          rest ∧ (outcome.2 = .proceed ∧ outcome.1.interrupt = pass.interrupt ∧
            (∀ entry ∈ rest, entry.2.position < stop) ∨
          outcome.2 = .halt ∧ outcome.1.interrupt ≠ none) := by
  have suits := Break.suits_follows wellFormed isLocal held plan.spacing
  induction fuel generalizing pass with
  | zero => cases went
  | succ fuel ih =>
    obtain ⟨behind, reached, ahead, trail, old, above, below, near⟩ := trails
    rw [checkpointRun, Fault.bind_eq_ok] at went
    obtain ⟨candidate, found, went⟩ := went
    have spec := candidate?_spec sameText trail near ordered inText found
    cases candidate with
    | none =>
      cases went
      exact Or.inl ⟨packed, ⟨behind, reached, ahead, trail, old, above, below, spec⟩, rfl⟩
    | some place =>
      obtain ⟨beyond, before, boundary, notBefore, due⟩ := spec
      obtain ⟨⟨middle, flow⟩, checked, went⟩ := Fault.bind_eq_ok.mp went
      rcases checkpoint_first spaced packed suits.passesOn
        ⟨behind, reached, ahead, trail, old, above, notBefore, due⟩
        (inside place boundary beyond before) checked with
        ⟨packedMiddle, checkedHere⟩ | ⟨rest, round, inFront, goesOn⟩
      · cases flow with
        | halt =>
          cases went
          exact Or.inl ⟨packedMiddle, Halted.mono checkedHere before.le⟩
        | proceed =>
          obtain ⟨trailsMiddle, same⟩ := checkedHere
          simp only at trailsMiddle
          rw [← same]
          exact ih packedMiddle
            (trailsMiddle.mono fun reached inside => ⟨inside.1, by omega, by omega⟩) went
      · rcases goesOn with ⟨rfl, same⟩ | ⟨rfl, late⟩
        · obtain ⟨after, flow⟩ := outcome
          rcases round.checkpointRun_met wellFormed isLocal held spaced sameText ordered inText begins
            inside went with ⟨rfl, rfl, -⟩ | ⟨rfl, rfl⟩
          · exact Or.inr ⟨rest, round,
              Or.inl ⟨rfl, same, fun entry member => (inFront entry member).trans before⟩⟩
          · exact Or.inr ⟨rest, round, Or.inr ⟨rfl, Option.some_ne_none _⟩⟩
        · cases went
          exact Or.inr ⟨rest, round, Or.inr ⟨rfl, late⟩⟩

omit sameText in
/-- Where a token of a first pass ends, the break that follows may be stored. -/
theorem Packed.steps {state : ScanState} {kind : BreakKind} {stack : PatternStack}
    {outcome : Pass × Flow} (packed : Packed pass) (running : pass.interrupt = none)
    (scanned : ∃ styles, grammar.Walk text .initial styles state.spot)
    (trails : Trails grammar text (Break.follows grammar text plan.spacing) False
      (fun place => low ≤ place ∧ place ≤ state.position ∧ near place) pass)
    (takes : (Break.follows grammar text plan.spacing).Takes grammar text plan.spacing False near
      ⟨state.position, kind, stack⟩)
    (went : Pass.checkpoint plan pass ⟨state.position, kind, stack⟩ = .ok outcome) :
    Steps grammar text plan.spacing low state outcome := by
  have suits := Break.suits_follows wellFormed isLocal held plan.spacing
  obtain ⟨after, flow⟩ := outcome
  rcases checkpoint_first spaced packed suits.passesOn trails takes went with
    ⟨packedAfter, checked⟩ | ⟨rest, round, inFront, goesOn⟩
  · cases flow with
    | proceed =>
      obtain ⟨trailsAfter, same⟩ := checked
      exact ⟨same.trans running, scanned, Or.inl ⟨packedAfter, trailsAfter⟩⟩
    | halt => exact ⟨Halted.ended checked, Or.inl packedAfter⟩
  · rcases goesOn with ⟨rfl, same⟩ | ⟨rfl, late⟩
    · exact ⟨same.trans running, scanned,
        Or.inr ⟨rest, round, Or.inr fun entry member => (inFront entry member).le⟩⟩
    · exact ⟨late, Or.inr ⟨rest, round⟩⟩

omit sameText in
/-- Where a token ends after the numbers have run out, nothing is stored. -/
theorem Round.steps {state : ScanState} {kind : BreakKind} {stack : PatternStack}
    {outcome : Pass × Flow}
    (round : Round grammar text plan.spacing pass.breaks pass.frontier pass.restartEnd rest)
    (running : pass.interrupt = none)
    (scanned : ∃ styles, grammar.Walk text .initial styles state.spot) (isNear : near 0)
    (takes : (Break.follows grammar text plan.spacing).Takes grammar text plan.spacing False near
      ⟨state.position, kind, stack⟩)
    (went : Pass.checkpoint plan pass ⟨state.position, kind, stack⟩ = .ok outcome) :
    Steps grammar text plan.spacing low state outcome := by
  obtain ⟨after, flow⟩ := outcome
  rcases round.checkpoint_met wellFormed isLocal held spaced takes isNear went with
    ⟨rfl, same, early⟩ | ⟨rfl, same⟩
  · rw [same]
    exact ⟨running, scanned, Or.inr ⟨rest, round, Or.inl early⟩⟩
  · rw [same]
    exact ⟨Option.some_ne_none _, Or.inr ⟨rest, round⟩⟩

section Tokens

variable {state : ScanState} {move : Move} {token : Token} {outcome : Pass × Flow}
  (good : state.Good grammar text) (leg : grammar.Leg text state move)
  (delivered : move.token = some token) (running : pass.interrupt = none)
  (scanned : ∃ styles, grammar.Walk text .initial styles state.spot)
  (went : Pass.sink plan pass token move.state = .ok outcome)
include good leg delivered running scanned went

/-- A token of a first pass leads to further breaks that follow each other, as long as there are numbers. -/
theorem Packed.sink (packed : Packed pass)
    (trails : Trails grammar text (Break.follows grammar text plan.spacing) False
      (fun place => low ≤ place ∧ place ≤ state.position ∧ state.position < place + plan.spacing) pass) :
    Steps grammar text plan.spacing low move.state outcome := by
  have suits := Break.suits_follows wellFormed isLocal held plan.spacing
  have scannedAfter := suits.move good scanned leg
  have stride := suits.makes.stride leg
  obtain ⟨sound, starts, stops, -⟩ := stride.token token delivered
  have ordered := stride.lt delivered
  have trailsOn : Trails grammar text (Break.follows grammar text plan.spacing) False
      (fun place => low ≤ place ∧ place ≤ move.state.position ∧ state.position < place + plan.spacing)
      pass := trails.mono fun place inside => ⟨inside.1, by omega, inside.2.2⟩
  rcases sink_cases went with ⟨notPlain, checked⟩ | ⟨plain, middle, flow, ran, left⟩
  · exact packed.steps wellFormed isLocal held spaced running scannedAfter trailsOn
      (suits.across good scanned leg delivered notPlain) checked
  · obtain ⟨kind, stack⟩ := stride.plain token delivered plain
    have inside := suits.inside good scanned leg delivered plain
    rw [starts, stack] at ran
    rcases checkpointRun_first wellFormed isLocal held spaced sameText ordered stride.good.position_le
      (begins_of_trails trails) (fun place boundary behind before => inside place boundary behind before.le)
      packed trailsOn ran with ⟨packedMiddle, checkedHere⟩ | ⟨rest, round, goesOn⟩
    · rcases left with ⟨rfl, rfl⟩ | ⟨rfl, checked⟩
      · exact ⟨Halted.ended checkedHere, Or.inl packedMiddle⟩
      · obtain ⟨trailsMiddle, same⟩ := checkedHere
        refine packedMiddle.steps wellFormed isLocal held spaced (same.trans running) scannedAfter
          trailsMiddle ?_ checked
        rw [kind, stack]
        exact inside _ stride.good.boundary ordered le_rfl
    · rcases goesOn with ⟨rfl, same, inFront⟩ | ⟨rfl, late⟩
      · obtain ⟨-, checked⟩ := left.resolve_left fun halted => nomatch halted.1
        exact absurd checked (round.checkpoint_ne_ok inFront)
      · obtain ⟨-, rfl⟩ := left.resolve_right fun goesOn => nomatch goesOn.1
        exact ⟨late, Or.inr ⟨rest, round⟩⟩

/-- A token after the numbers have run out stores nothing, and ends the pass where the scan comes to the
break next to the first. -/
theorem Round.sink (round : Round grammar text plan.spacing pass.breaks pass.frontier pass.restartEnd rest)
    (away : state.position < plan.spacing ∨ ∀ entry ∈ rest, entry.2.position ≤ state.position) :
    Steps grammar text plan.spacing low move.state outcome := by
  have suits := Break.suits_follows wellFormed isLocal held plan.spacing
  have scannedAfter := suits.move good scanned leg
  have stride := suits.makes.stride leg
  obtain ⟨sound, starts, stops, -⟩ := stride.token token delivered
  have ordered := stride.lt delivered
  have begins : state.position < plan.spacing ∨ ∃ value : Break, value.Landed grammar text ∧
      plan.spacing ≤ value.position ∧ value.position ≤ state.position := by
    refine away.imp_right fun behind => ?_
    obtain ⟨id, next, others, here, follows⟩ := round.exists_next
    exact ⟨next, follows.landed, (Nat.le_add_left _ _).trans follows.far,
      behind (id, next) (by simp [here])⟩
  rcases sink_cases went with ⟨notPlain, checked⟩ | ⟨plain, middle, flow, ran, left⟩
  · rcases away with early | behind
    · have isNear : (fun reached => state.position < reached + plan.spacing) 0 :=
        early.trans_eq (Nat.zero_add _).symm
      exact round.steps wellFormed isLocal held spaced running scannedAfter isNear
        (suits.across good scanned leg delivered notPlain) checked
    · exact absurd checked (round.checkpoint_ne_ok fun entry member =>
        (behind entry member).trans_lt ordered)
  · obtain ⟨kind, stack⟩ := stride.plain token delivered plain
    have inside := suits.inside good scanned leg delivered plain
    rw [starts, stack] at ran
    rcases round.checkpointRun_met wellFormed isLocal held spaced sameText ordered
      stride.good.position_le begins
      (fun place boundary behind before => inside place boundary behind before.le) ran with
      ⟨rfl, rfl, near⟩ | ⟨rfl, rfl⟩
    · obtain ⟨-, checked⟩ := left.resolve_left fun halted => nomatch halted.1
      rcases away with early | behind
      · have isNear : (fun reached => move.state.position ≤ text.ceil (reached + plan.spacing)) 0 :=
          near early
        rw [kind, stack] at checked
        exact round.steps wellFormed isLocal held spaced running scannedAfter isNear
          (inside _ stride.good.boundary ordered le_rfl) checked
      · exact absurd checked (round.checkpoint_ne_ok fun entry member =>
          (behind entry member).trans_lt ordered)
    · obtain ⟨-, rfl⟩ := left.resolve_right fun goesOn => nomatch goesOn.1
      exact ⟨Option.some_ne_none _, Or.inr ⟨rest, round⟩⟩

end Tokens

/-- **A token of a first pass** leads to the breaks that follow each other, or to a circle of them. -/
theorem sink_first {state : ScanState} {move : Move} {token : Token} {outcome : Pass × Flow}
    (good : state.Good grammar text) (leg : grammar.Leg text state move)
    (delivered : move.token = some token) (going : Going grammar text plan.spacing low pass state)
    (went : Pass.sink plan pass token move.state = .ok outcome) :
    Steps grammar text plan.spacing low move.state outcome := by
  obtain ⟨running, scanned, ⟨packed, trails⟩ | ⟨rest, round, away⟩⟩ := going
  · exact packed.sink wellFormed isLocal held spaced sameText good leg delivered running scanned went
      trails
  · exact round.sink wellFormed isLocal held spaced sameText good leg delivered running scanned went away

/-- **A scan of a first pass** keeps that true. -/
theorem sink_keeps_first :
    (Pass.sink plan).Keeps grammar text (grammar.Leg text) (Going grammar text plan.spacing low)
      fun pass _ => pass.Over grammar text plan.spacing := by
  have suits := Break.suits_follows wellFormed isLocal held plan.spacing
  constructor
  · rintro pass state move good ⟨running, scanned, breaks⟩ leg silent
    exact ⟨running, suits.move good scanned leg, (suits.makes.stride leg).silent silent ▸ breaks⟩
  · intro pass state move token after flow good going leg delivered went
    have steps := sink_first wellFormed isLocal held spaced sameText good leg delivered going went
    cases flow <;> exact steps

end Scans

end Highlight.Pass
