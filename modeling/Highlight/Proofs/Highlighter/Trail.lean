/-
**A pass over the text, and what is asked of the breaks that it leaves.**

What a break should be depends on what is to be proved of it: that the machine gets there, or that it is
not too far from the one before. A pass treats all such demands alike:

* `Demands`: what is asked of single breaks and of neighbours;
* `Trail`: **the breaks with the frontier among them**: up to it they are as they are asked to be, and
  behind it they are from where old breaks may be relied on;
* `Demands.Takes`: a break that may be stored behind any frontier that is near enough;
* `Pass.checkpoint_spec`: storing a break where the scan has come to, and meeting an old one;
* `Pass.sink_keeps`: so the breaks are kept over a whole pass, if every place where a scan reports a
  boundary may be stored.
-/

import Mathlib.Data.List.Chain
import Highlight.Proofs.Highlighter.Checkpoint
import Highlight.Proofs.Scan.Run

namespace Highlight

variable {grammar : Grammar} {text : Text}

open BreakIndex (Entry)

/-- Where the machine is when it is taken up at a break. -/
def Break.spot (value : Break) : Spot := ⟨value.position, value.stack, false⟩

/-- What is asked of the breaks of a text. -/
structure Demands where
  /-- Of a break up to the frontier. -/
  reached : Break → Prop
  /-- Of two breaks that follow each other, if the first one is reached or may be relied on. -/
  joined : Break → Break → Prop
  /-- Of an old break that may be relied on. -/
  kept : Break → Prop
  /-- Of the last break, if it may be relied on. -/
  last : Break → Prop

/-! ### The frontier among the breaks -/

/-- The breaks of an index, of which `reached` is the one at the frontier, are at boundaries and in
order. Up to the frontier they are as they are asked to be, and behind it those are that may be relied
on. -/
structure Trail (grammar : Grammar) (text : Text) (demands : Demands) (index : BreakIndex)
    (frontier : BreakId) (restartEnd : Option Nat) (behind : List Entry) (reached : Break)
    (ahead : List Entry) : Prop where
  holds : index.Holds (behind ++ (frontier, reached) :: ahead)
  starts : (behind ++ (frontier, reached) :: ahead).head? = some (BreakIndex.first, Break.first)
  sorted : BreakIndex.Sorted (behind ++ (frontier, reached) :: ahead)
  good : ∀ entry ∈ behind ++ (frontier, reached) :: ahead, entry.2.spot.Good grammar text
  upTo : ∀ entry ∈ behind ++ [(frontier, reached)], demands.reached entry.2
  passed : (behind ++ [(frontier, reached)]).IsChain fun entry next => demands.joined entry.2 next.2
  linked : ahead.IsChain fun entry next =>
    Pass.isRestarted restartEnd entry.2.position = true → demands.joined entry.2 next.2
  kept : ∀ entry ∈ ahead, Pass.isRestarted restartEnd entry.2.position = true → demands.kept entry.2
  last : ∀ entry ∈ ahead.getLast?, Pass.isRestarted restartEnd entry.2.position = true →
    demands.last entry.2

theorem Pass.isRestarted_mono {restartEnd : Option Nat} {position other : Nat}
    (restarted : Pass.isRestarted restartEnd position = true) (ordered : position ≤ other) :
    Pass.isRestarted restartEnd other = true := by
  cases restartEnd with
  | none => rfl
  | some stop =>
    simp only [Pass.isRestarted, decide_eq_true_eq] at restarted ⊢
    exact restarted.trans ordered

/-- What is passed on from each entry of a chain to the next holds of all if it holds of the first. -/
theorem forall_of_chain {α : Type} {relation : α → α → Prop} {holds : α → Prop} {first : α}
    {rest : List α} (chain : (first :: rest).IsChain relation) (here : holds first)
    (further : ∀ entry next, relation entry next → holds entry → holds next) :
    ∀ entry ∈ first :: rest, holds entry := by
  induction rest generalizing first with
  | nil =>
    intro entry member
    rw [List.mem_singleton.mp member]
    exact here
  | cons next rest ih =>
    rw [List.isChain_cons_cons] at chain
    intro entry member
    rcases List.mem_cons.mp member with rfl | later
    · exact here
    · exact ih chain.2 (further first next chain.1 here) entry later

namespace Trail

variable {demands : Demands} {index other : BreakIndex} {frontier id : BreakId}
  {restartEnd marker : Option Nat} {behind ahead passed rest : List Entry} {reached value : Break}

theorem ahead_lt (trail : Trail grammar text demands index frontier restartEnd behind reached ahead) :
    ∀ entry ∈ ahead, reached.position < entry.2.position := trail.sorted.behind

/-- The old breaks behind one of them are after it. -/
theorem lt_of_ahead
    (trail : Trail grammar text demands index frontier restartEnd behind reached
      (passed ++ (id, value) :: rest)) :
    ∀ entry ∈ rest, value.position < entry.2.position := by
  have sorted := trail.sorted
  rw [← List.cons_append, ← List.append_assoc] at sorted
  exact sorted.behind

/-- A break that is before the first of some old ones is before all of them. -/
theorem lt_of_head
    (trail : Trail grammar text demands index frontier restartEnd behind reached (passed ++ rest))
    (before : ∀ entry ∈ rest.head?, value.position < entry.2.position) :
    ∀ entry ∈ rest, value.position < entry.2.position := by
  have ordered := trail.sorted.ordered
  rw [← List.cons_append, ← List.append_assoc] at ordered
  exact BreakIndex.Ordered.le_of_head (List.pairwise_append.mp ordered).2.1 before

theorem position_eq
    (trail : Trail grammar text demands index frontier restartEnd behind reached ahead) :
    index.position frontier = .ok reached.position := trail.holds.position_eq

theorem reached_here
    (trail : Trail grammar text demands index frontier restartEnd behind reached ahead) :
    demands.reached reached := trail.upTo (frontier, reached) (by simp)

theorem good_here
    (trail : Trail grammar text demands index frontier restartEnd behind reached ahead) :
    reached.spot.Good grammar text := trail.good (frontier, reached) (by simp)

/-- The break at the start of the text is all there is after a fresh start. -/
theorem initial (first : demands.reached Break.first) :
    Trail grammar text demands .initial BreakIndex.first none [] Break.first [] := by
  refine ⟨BreakIndex.holds_initial, rfl, List.pairwise_singleton _ _, fun entry member => ?_,
    fun entry member => ?_, List.isChain_singleton _, List.isChain_nil,
    (fun _ member => nomatch member), fun _ member => nomatch member⟩
  · rw [List.mem_singleton.mp member]
    exact Spot.good_initial grammar text
  · rw [List.mem_singleton.mp member]
    exact first

/-- The breaks up to the frontier and one that is stored behind it. -/
theorem passed_append
    (trail : Trail grammar text demands index frontier restartEnd behind reached ahead)
    (joined : demands.joined reached value) :
    ((behind ++ [(frontier, reached)]) ++ [(id, value)]).IsChain fun entry next =>
      demands.joined entry.2 next.2 := by
  refine trail.passed.append (List.isChain_singleton _) fun entry atEnd next atHead => ?_
  rw [List.getLast?_concat] at atEnd
  cases atEnd
  cases atHead
  exact joined

/-- The frontier advances to a break that is stored behind it and takes the place of the breaks it has
passed. -/
theorem advance
    (trail : Trail grammar text demands index frontier restartEnd behind reached (passed ++ rest))
    (holds : other.Holds (behind ++ (frontier, reached) :: (id, value) :: rest))
    (good : value.spot.Good grammar text) (isReached : demands.reached value)
    (joined : demands.joined reached value) (further : reached.position < value.position)
    (before : ∀ entry ∈ rest, value.position < entry.2.position)
    (restarted : ∀ entry ∈ rest, Pass.isRestarted marker entry.2.position = true →
      Pass.isRestarted restartEnd entry.2.position = true) :
    Trail grammar text demands other id marker (behind ++ [(frontier, reached)]) value rest := by
  have inAhead : ∀ entry ∈ rest, entry ∈ passed ++ rest :=
    fun entry member => List.mem_append_right _ member
  have sorted := trail.sorted
  have goodAll := trail.good
  rw [List.append_cons] at holds goodAll
  refine ⟨holds, ?_, ?_, ?_, ?_, trail.passed_append joined, ?_, ?_, ?_⟩
  · rw [← trail.starts]
    cases behind <;> rfl
  · rw [BreakIndex.Sorted, List.append_cons, List.pairwise_append] at sorted
    refine List.pairwise_append.mpr ⟨sorted.1, ?_, ?_⟩
    · refine List.pairwise_cons.mpr ⟨before, ?_⟩
      exact (List.pairwise_append.mp sorted.2.1).2.1
    · intro entry member next later
      have ordered : entry.2.position ≤ reached.position := by
        rcases List.mem_append.mp member with inBehind | here
        · exact (trail.sorted.before entry inBehind).le
        · rw [List.mem_singleton.mp here]
      rcases List.mem_cons.mp later with rfl | inRest
      · exact ordered.trans_lt further
      · exact (ordered.trans_lt further).trans (before next inRest)
  · intro entry member
    rcases List.mem_append.mp member with old | new
    · exact goodAll entry (List.mem_append_left _ old)
    · rcases List.mem_cons.mp new with rfl | later
      · exact good
      · exact goodAll entry (List.mem_append_right _ (inAhead entry later))
  · intro entry member
    rcases List.mem_append.mp member with old | new
    · exact trail.upTo entry old
    · rw [List.mem_singleton.mp new]
      exact isReached
  · exact trail.linked.right_of_append.imp_of_mem_imp
      fun entry next member _ leads atMarker => leads (restarted entry member atMarker)
  · intro entry member atMarker
    exact trail.kept entry (inAhead entry member) (restarted entry member atMarker)
  · intro entry atEnd atMarker
    refine trail.last entry ?_ (restarted entry (List.mem_of_mem_getLast? atEnd) atMarker)
    rw [List.getLast?_append, Option.mem_def.mp atEnd]
    rfl

/-- If the breaks from the frontier on are as they are asked to be, it may be at the last of them. -/
theorem finish
    (trail : Trail grammar text demands index frontier restartEnd behind reached ahead)
    (reachedAll : ∀ entry ∈ (frontier, reached) :: ahead, demands.reached entry.2)
    (linked : ((frontier, reached) :: ahead).IsChain fun entry next =>
      demands.joined entry.2 next.2) :
    ∃ front last, Trail grammar text demands index index.last none front last [] ∧
      (index.last, last) ∈ ((frontier, reached) :: ahead).getLast? := by
  obtain ⟨holds, starts, sorted, good, upTo, passed, -, -, -⟩ := trail
  have reachedWhole : ∀ entry ∈ behind ++ (frontier, reached) :: ahead, demands.reached entry.2 := by
    intro entry member
    rcases List.mem_append.mp member with old | new
    · exact upTo entry (List.mem_append_left _ old)
    · exact reachedAll entry new
  have chain : (behind ++ (frontier, reached) :: ahead).IsChain fun entry next =>
      demands.joined entry.2 next.2 := by
    rw [List.append_cons]
    exact passed.append_overlap linked (List.cons_ne_nil _ _)
  obtain ⟨front, ⟨last, value⟩, whole⟩ :
      ∃ front entry, behind ++ (frontier, reached) :: ahead = front ++ [entry] :=
    (List.eq_nil_or_concat' _).resolve_left (List.append_ne_nil_of_right_ne_nil _ (List.cons_ne_nil _ _))
  have atEnd : (last, value) ∈ ((frontier, reached) :: ahead).getLast? := by
    have same := congrArg List.getLast? whole
    rw [List.getLast?_append, List.getLast?_concat, List.getLast?_cons, Option.some_or] at same
    rw [List.getLast?_cons, same]
    rfl
  rw [whole] at holds starts sorted good reachedWhole chain
  have last_eq : index.last = last := by
    have last := holds.last
    rw [BreakIndex.lastId_append, BreakIndex.lastId_cons] at last
    exact (Option.some_inj.mp last).symm
  rw [last_eq]
  exact ⟨front, value, ⟨holds, starts, sorted, good, reachedWhole, chain, List.isChain_nil,
    (fun _ member => nomatch member), fun _ member => nomatch member⟩, atEnd⟩

/-- Where an old break is met that may be relied on, all breaks are as they are asked to be. -/
theorem settle
    (trail : Trail grammar text demands index frontier restartEnd behind reached
      (passed ++ (id, value) :: rest))
    (holds : other.Holds (behind ++ (frontier, reached) :: (id, value) :: rest))
    (isReached : demands.reached value) (joined : demands.joined reached value)
    (further : reached.position < value.position)
    (passesOn : ∀ {value other}, demands.reached value → demands.joined value other →
      demands.reached other)
    (restarted : Pass.isRestarted restartEnd value.position = true) :
    ∃ behind last, Trail grammar text demands other other.last none behind last [] ∧
      demands.last last ∧ value.position ≤ last.position := by
  have later := trail.lt_of_ahead
  have allRestarted : ∀ entry ∈ (id, value) :: rest,
      Pass.isRestarted restartEnd entry.2.position = true := by
    intro entry member
    rcases List.mem_cons.mp member with rfl | inRest
    · exact restarted
    · exact Pass.isRestarted_mono restarted (later entry inRest).le
  have linked : ((id, value) :: rest).IsChain fun entry next => demands.joined entry.2 next.2 :=
    trail.linked.right_of_append.imp_of_mem_imp
      fun entry next member _ joins => joins (allRestarted entry member)
  have reachedAll : ∀ entry ∈ (id, value) :: rest, demands.reached entry.2 :=
    forall_of_chain linked isReached fun entry next joins isReached => passesOn isReached joins
  have advanced := (List.append_cons passed (id, value) rest ▸ trail).advance holds
    (trail.good (id, value) (by simp)) isReached joined further later fun _ _ restarted => restarted
  obtain ⟨front, last, settled, atEnd⟩ := advanced.finish reachedAll linked
  have member : (other.last, last) ∈ (id, value) :: rest := List.mem_of_mem_getLast? atEnd
  refine ⟨front, last, settled, ?_, ?_⟩
  · refine trail.last (other.last, last) ?_ (allRestarted _ member)
    rw [List.getLast?_append, Option.mem_def.mp atEnd]
    rfl
  · rcases List.mem_cons.mp member with same | inRest
    · cases same
      exact le_rfl
    · exact (later _ inRest).le

/-- The old breaks behind the frontier may be deleted. -/
theorem cut (trail : Trail grammar text demands index frontier restartEnd behind reached ahead)
    (holds : other.Holds (behind ++ [(frontier, reached)])) :
    Trail grammar text demands other frontier none behind reached [] := by
  have sorted := trail.sorted
  have good := trail.good
  rw [BreakIndex.Sorted, List.append_cons, List.pairwise_append] at sorted
  rw [List.append_cons] at good
  refine ⟨holds, ?_, sorted.1, fun entry member => good entry (List.mem_append_left _ member),
    trail.upTo, trail.passed, List.isChain_nil, (fun _ member => nomatch member),
    fun _ member => nomatch member⟩
  rw [← trail.starts]
  cases behind <;> rfl

end Trail

/-! ### Checkpoints -/

/-- A break may be stored behind any frontier that is near enough, where it is due or old breaks may be
behind the frontier. -/
structure Demands.Takes (demands : Demands) (grammar : Grammar) (text : Text) (spacing : Nat)
    (early : Prop) (near : Nat → Prop) (value : Break) : Prop where
  good : value.spot.Good grammar text
  reached : demands.reached value
  joined : ∀ frontier, demands.reached frontier → near frontier.position →
    frontier.position < value.position → (frontier.position + spacing ≤ value.position ∨ early) →
      demands.joined frontier value

namespace Pass

/-- The breaks of a pass are as they should be, and the position of its frontier is such. There are old
breaks behind it only if the pass may store breaks `early`. -/
def Trails (grammar : Grammar) (text : Text) (demands : Demands) (early : Prop) (near : Nat → Prop)
    (pass : Pass) : Prop :=
  ∃ behind reached ahead, Trail grammar text demands pass.breaks pass.frontier pass.restartEnd behind
    reached ahead ∧ (ahead ≠ [] → early) ∧ near reached.position

/-- A pass has ended early: its time was over, or at a fixed point, where all breaks are as they should
be, and the old break that was met has what was kept of such breaks. -/
def Halted (grammar : Grammar) (text : Text) (demands : Demands) (early : Prop) (low high : Nat)
    (pass : Pass) : Prop :=
  pass.interrupt = some .deadline ∧
      Trails grammar text demands early (fun place => low ≤ place ∧ place ≤ high) pass ∨
    pass.interrupt = some .fixedPoint ∧
      (∃ behind last, Trail grammar text demands pass.breaks pass.frontier pass.restartEnd behind last
        [] ∧ demands.last last ∧ low ≤ last.position) ∧
      ∃ value, demands.reached value ∧ demands.kept value ∧ low < value.position ∧
        value.position ≤ high

/-- What a pass has come to after checkpoints. -/
def Checked (grammar : Grammar) (text : Text) (demands : Demands) (early : Prop) (low high : Nat)
    (near : Nat → Prop) (interrupt : Option Interrupt) (outcome : Pass × Flow) : Prop :=
  match outcome with
  | (pass, .proceed) =>
    Trails grammar text demands early (fun place => low ≤ place ∧ place ≤ high ∧ near place) pass ∧
      pass.interrupt = interrupt
  | (pass, .halt) => Halted grammar text demands early low high pass

variable {demands : Demands} {early : Prop}

theorem Trails.mono {near other : Nat → Prop} {pass : Pass}
    (trails : Trails grammar text demands early near pass)
    (implies : ∀ place, near place → other place) :
    Trails grammar text demands early other pass := by
  obtain ⟨behind, reached, ahead, trail, old, isNear⟩ := trails
  exact ⟨behind, reached, ahead, trail, old, implies _ isNear⟩

theorem Halted.mono {low high bound : Nat} {pass : Pass}
    (halted : Halted grammar text demands early low high pass) (further : high ≤ bound) :
    Halted grammar text demands early low bound pass := by
  rcases halted with ⟨late, trails⟩ | ⟨met, settled, value, isReached, kept, above, below⟩
  · exact Or.inl ⟨late, trails.mono fun place inside => ⟨inside.1, inside.2.trans further⟩⟩
  · exact Or.inr ⟨met, settled, value, isReached, kept, above, below.trans further⟩

/-- Where a break is due, or an old one is passed, one may be stored that follows the frontier. -/
theorem joined_of_due {plan : PassPlan} {near : Nat → Prop} {value : Break} {pass : Pass}
    {behind ahead : List Entry} {reached : Break} (spaced : 0 < plan.spacing)
    (trail : Trail grammar text demands pass.breaks pass.frontier pass.restartEnd behind reached
      ahead) (old : ahead ≠ [] → early) (isNear : near reached.position)
    (takes : demands.Takes grammar text plan.spacing early near value)
    (due : Due plan reached ahead value) :
    reached.position < value.position ∧ demands.joined reached value := by
  rcases due with far | ⟨entry, atHead, passed⟩
  · have further : reached.position < value.position := by omega
    exact ⟨further, takes.joined reached trail.reached_here isNear further (Or.inl far)⟩
  · have member := List.mem_of_mem_head? atHead
    have further := (trail.ahead_lt entry member).trans_le passed
    exact ⟨further, takes.joined reached trail.reached_here isNear further
      (Or.inr (old (List.ne_nil_of_mem member)))⟩

/-- **A checkpoint keeps the breaks as they should be**, if a break may be stored there and there are
numbers for all slots. The frontier is not far from it then. -/
theorem checkpoint_spec {plan : PassPlan} (spaced : 0 < plan.spacing)
    (passesOn : ∀ {value other}, demands.reached value → demands.joined value other →
      demands.reached other)
    {pass : Pass} {low : Nat} {near : Nat → Prop} {value : Break}
    (trails : Trails grammar text demands early
      (fun place => low ≤ place ∧ place ≤ value.position ∧ near place) pass)
    (takes : demands.Takes grammar text plan.spacing early near value) {outcome : Pass × Flow}
    (went : checkpoint plan pass value = .ok outcome) (numbered : outcome.1.breaks.Numbered) :
    Checked grammar text demands early low value.position
      (fun place => value.position < place + plan.spacing) pass.interrupt outcome := by
  obtain ⟨behind, reached, ahead, trail, old, above, below, isNear⟩ := trails
  -- Where no old break is met the pass goes on from the new one, unless its time is over.
  have goesOn : ∀ {breaks id marker rest}, Due plan reached ahead value → (rest ≠ [] → ahead ≠ []) →
      Trail grammar text demands breaks id marker (behind ++ [(pass.frontier, reached)]) value rest →
      Checked grammar text demands early low value.position
        (fun place => value.position < place + plan.spacing) pass.interrupt
        (advanced plan pass breaks id marker) := by
    intro breaks id marker rest due some trailAfter
    have further := (joined_of_due spaced trail old isNear takes due).1
    unfold advanced
    split
    · exact Or.inl ⟨rfl, _, value, rest, trailAfter, fun left => old (some left), by omega, le_rfl⟩
    · exact ⟨⟨_, value, rest, trailAfter, fun left => old (some left), by omega, le_rfl, by omega⟩,
        rfl⟩
  cases (checks_of_checkpoint trail.holds went numbered).2 with
  | notDue early =>
    have near : ¬ reached.position + plan.spacing ≤ value.position := fun far => early (Or.inl far)
    exact ⟨⟨behind, reached, ahead, trail, old, above, below, by omega⟩, rfl⟩
  | inserted due split unlike before holds =>
    subst split
    obtain ⟨further, joined⟩ := joined_of_due spaced trail old isNear takes due
    have allBefore := trail.lt_of_head before
    refine goesOn due (fun left none => left (List.append_eq_nil_iff.mp none).2) ?_
    refine trail.advance holds takes.good takes.reached joined further allBefore ?_
    intro entry member atMarker
    split at atMarker
    · rename_i restarted
      exact isRestarted_mono restarted (allBefore entry member).le
    · exact atMarker
  | @reused passed rest _ id due split unlike restarted holds =>
    subst split
    obtain ⟨further, joined⟩ := joined_of_due spaced trail old isNear takes due
    have trailAfter := (List.append_cons passed (id, value) rest ▸ trail).advance holds takes.good
      takes.reached joined further trail.lt_of_ahead fun _ _ restarted => restarted
    exact goesOn due (fun _ => List.append_ne_nil_of_right_ne_nil _ (List.cons_ne_nil _ _)) trailAfter
  | @met passed rest _ id due split unlike restarted holds =>
    subst split
    obtain ⟨further, joined⟩ := joined_of_due spaced trail old isNear takes due
    obtain ⟨front, last, settled, isLast, ordered⟩ :=
      trail.settle holds takes.reached joined further passesOn restarted
    exact Or.inr ⟨rfl, ⟨front, last, settled, isLast, by omega⟩, value, takes.reached,
      trail.kept (id, value) (by simp) restarted, by omega, le_rfl⟩

/-! ### Text where nothing matches -/

/-- A place strictly between two others to store a break at is not before the frontier and not behind
the place where a break is due. Without one, no break is due between them. -/
def IsCandidate (text : Text) (reached due start stop : Nat) : Option Nat → Prop
  | none => stop ≤ due
  | some place => start < place ∧ place < stop ∧ text.isBoundary place = true ∧ reached ≤ place ∧
      place ≤ due

/-- Of the place where a break is due and those of old ones, the first between two others is a
candidate. -/
theorem isCandidate_min? {reached due start stop : Nat} (starts : start < due)
    (boundary : text.isBoundary due = true) (ordered : reached ≤ due) (old : List Nat)
    (olds : ∀ place ∈ old, text.isBoundary place = true ∧ reached ≤ place) :
    IsCandidate text reached due start stop
      ((due :: old).filter fun place => decide (start < place) && decide (place < stop)).min? := by
  cases least : ((due :: old).filter fun place =>
    decide (start < place) && decide (place < stop)).min? with
  | none =>
    obtain ⟨-, first⟩ := min?_between least
    show stop ≤ due
    by_contra inside
    obtain ⟨other, never, -⟩ := first due List.mem_cons_self starts (not_le.mp inside)
    cases never
  | some place =>
    obtain ⟨offered, first⟩ := min?_between least
    obtain ⟨offered, behind, inside⟩ := offered place rfl
    refine ⟨behind, inside, ?_⟩
    have notBeyond : place ≤ due := by
      rcases lt_or_ge due stop with dueInside | beyond
      · obtain ⟨other, same, notBeyond⟩ := first due List.mem_cons_self starts dueInside
        cases same
        exact notBeyond
      · exact inside.le.trans beyond
    rcases List.mem_cons.mp offered with rfl | inOld
    · exact ⟨boundary, ordered, le_rfl⟩
    · exact ⟨(olds place inOld).1, (olds place inOld).2, notBeyond⟩

/-- The next place to store a break at inside of unmatched text is where the next one is due, or where
an old one is. -/
theorem candidate?_spec {plan : PassPlan} (sameText : plan.text = text) {pass : Pass}
    {behind ahead : List Entry} {reached : Break}
    (trail : Trail grammar text demands pass.breaks pass.frontier pass.restartEnd behind reached
      ahead) {start stop : Nat} (before : start < reached.position + plan.spacing)
    (ordered : start < stop) (inText : stop ≤ text.size) {candidate : Option Nat}
    (found : candidate? plan pass start stop = .ok candidate) :
    IsCandidate text reached.position (text.ceil (reached.position + plan.spacing)) start stop
      candidate := by
  have due := Text.min_le_ceil text (reached.position + plan.spacing)
  have reachedIn := trail.good_here.position_le
  change reached.position ≤ text.size at reachedIn
  rw [candidate?_eq_bind trail.holds, sameText] at found
  obtain ⟨sum, added, found⟩ := Fault.bind_eq_ok.mp found
  obtain ⟨-, rfl⟩ := checkedAdd_eq_ok_iff.mp added
  cases found
  refine isCandidate_min? (by omega) (Text.isBoundary_ceil text _) (by omega) _ fun place member => ?_
  obtain ⟨entry, atHead, rfl⟩ := Option.map_eq_some_iff.mp (Option.mem_toList.mp member)
  have inFront := List.mem_of_mem_head? atHead
  exact ⟨(trail.good entry (by simp [inFront])).boundary, (trail.ahead_lt entry inFront).le⟩

/-- The checkpoints inside of text that no pattern matches keep the breaks as they should be, if a break
may be stored at every boundary there that is not behind where one is due. None is due behind them. -/
theorem checkpointRun_spec {plan : PassPlan} (spaced : 0 < plan.spacing) (sameText : plan.text = text)
    (passesOn : ∀ {value other}, demands.reached value → demands.joined value other →
      demands.reached other)
    {start stop low fuel : Nat} {stack : PatternStack} (ordered : start < stop)
    (inText : stop ≤ text.size)
    (inside : ∀ place, text.isBoundary place = true → start < place → place < stop →
      demands.Takes grammar text plan.spacing early
        (fun reached => place ≤ text.ceil (reached + plan.spacing)) ⟨place, .inner, stack⟩)
    {pass : Pass}
    (trails : Trails grammar text demands early
      (fun place => low ≤ place ∧ place ≤ stop ∧ start < place + plan.spacing) pass)
    {outcome : Pass × Flow} (went : checkpointRun plan start stop stack fuel pass = .ok outcome)
    (numbered : outcome.1.breaks.Numbered) :
    Checked grammar text demands early low stop
      (fun place => stop ≤ text.ceil (place + plan.spacing)) pass.interrupt outcome := by
  induction fuel generalizing pass with
  | zero => cases went
  | succ fuel ih =>
    obtain ⟨behind, reached, ahead, trail, old, above, below, near⟩ := trails
    rw [checkpointRun, Fault.bind_eq_ok] at went
    obtain ⟨candidate, found, went⟩ := went
    have spec := candidate?_spec sameText trail near ordered inText found
    cases candidate with
    | none =>
      cases went
      exact ⟨⟨behind, reached, ahead, trail, old, above, below, spec⟩, rfl⟩
    | some place =>
      obtain ⟨beyond, before, boundary, notBefore, due⟩ := spec
      simp only [Fault.bind_eq_ok] at went
      obtain ⟨⟨after, flow⟩, checked, went⟩ := went
      have checkedHere := checkpoint_spec spaced passesOn
        ⟨behind, reached, ahead, trail, old, above, notBefore, due⟩
        (inside place boundary beyond before) checked
      cases flow with
      | halt =>
        cases went
        exact Halted.mono (checkedHere numbered) before.le
      | proceed =>
        obtain ⟨trailsAfter, same⟩ := checkedHere ((size_le_of_checkpointRun went).trans numbered)
        simp only at trailsAfter
        have rest := ih (trailsAfter.mono fun reached inside => ⟨inside.1, by omega, by omega⟩) went
        rwa [same] at rest

/-! ### Passes -/

/-- The moves of a scan, from states that are `scanned`, lead to places where a break may be stored. So
does every boundary inside of text that no pattern matches. -/
structure Suits (grammar : Grammar) (text : Text) (made : ScanState → Move → Prop)
    (scanned : ScanState → Prop) (demands : Demands) (spacing : Nat) (early : Prop) : Prop where
  makes : grammar.Makes text made
  /-- A scan may begin at a break that is reached. -/
  starts : ∀ {value}, value.spot.Good grammar text → demands.reached value →
    scanned (.ofBreak value)
  move : ∀ {state move}, state.Good grammar text → scanned state → made state move →
    scanned move.state
  inside : ∀ {state move token}, state.Good grammar text → scanned state → made state move →
    move.token = some token → token.plain = true →
      ∀ place, text.isBoundary place = true → state.position < place → place ≤ move.state.position →
        demands.Takes grammar text spacing early (fun reached => place ≤ text.ceil (reached + spacing))
          ⟨place, .inner, state.stack⟩
  across : ∀ {state move token}, state.Good grammar text → scanned state → made state move →
    move.token = some token → token.plain = false →
      demands.Takes grammar text spacing early (fun reached => state.position < reached + spacing)
        ⟨move.state.position, token.kind, move.state.stack⟩
  passesOn : ∀ {value other}, demands.reached value → demands.joined value other →
    demands.reached other
  /-- Where no break is due before the text ends, the last one may be the last. -/
  last : ∀ {value}, value.spot.Good grammar text → demands.reached value →
    text.size < value.position + spacing → demands.last value

/-- **A pass keeps the breaks as they should be**, as long as there are numbers for all slots. -/
theorem sink_keeps {made : ScanState → Move → Prop} {scanned : ScanState → Prop} {plan : PassPlan}
    (suits : Suits grammar text made scanned demands plan.spacing early) (spaced : 0 < plan.spacing)
    (sameText : plan.text = text) (low : Nat) :
    (Pass.sink plan).Keeps grammar text made
      (fun pass state => pass.breaks.Numbered → Trails grammar text demands early
          (fun place => low ≤ place ∧ place ≤ state.position ∧ state.position < place + plan.spacing)
          pass ∧ pass.interrupt = none ∧ scanned state)
      fun pass state => pass.breaks.Numbered →
        Halted grammar text demands early low state.position pass := by
  constructor
  · intro pass state move good kept isMade silent numbered
    obtain ⟨trails, running, isScanned⟩ := kept numbered
    have same := (suits.makes.stride isMade).silent silent
    exact ⟨same ▸ trails, running, suits.move good isScanned isMade⟩
  · intro pass state move token after flow good kept isMade delivered taken
    suffices checked : after.breaks.Numbered →
        Checked grammar text demands early low move.state.position
          (fun place => move.state.position < place + plan.spacing) none (after, flow) ∧
        scanned move.state by
      cases flow with
      | halt => exact fun numbered => (checked numbered).1
      | proceed => exact fun numbered =>
          ⟨(checked numbered).1.1, (checked numbered).1.2, (checked numbered).2⟩
    intro numbered
    obtain ⟨trails, running, isScanned⟩ := kept ((size_le_of_sink taken).trans numbered)
    refine ⟨?_, suits.move good isScanned isMade⟩
    have stride := suits.makes.stride isMade
    obtain ⟨sound, starts, stops, -⟩ := stride.token token delivered
    have ordered := stride.lt delivered
    have last : ∀ {middle : Pass} {near : Nat → Prop},
        Trails grammar text demands early
          (fun place => low ≤ place ∧ place ≤ move.state.position ∧ near place) middle →
        middle.interrupt = none →
        demands.Takes grammar text plan.spacing early near
          ⟨move.state.position, token.kind, move.state.stack⟩ →
        checkpoint plan middle ⟨move.state.position, token.kind, move.state.stack⟩ =
          .ok (after, flow) →
        Checked grammar text demands early low move.state.position
          (fun place => move.state.position < place + plan.spacing) none (after, flow) := by
      intro middle near trailsMiddle runningMiddle takes checked
      rw [← runningMiddle]
      exact checkpoint_spec spaced suits.passesOn trailsMiddle takes checked numbered
    rcases sink_cases taken with ⟨notPlain, checked⟩ | ⟨plain, middle, flowMiddle, ran, left⟩
    · exact last (trails.mono fun place inside => ⟨inside.1, by omega, inside.2.2⟩) running
        (suits.across good isScanned isMade delivered notPlain) checked
    · obtain ⟨kind, stack⟩ := stride.plain token delivered plain
      rw [starts, stack] at ran
      have takes := suits.inside good isScanned isMade delivered plain
      have inner := checkpointRun_spec spaced sameText suits.passesOn ordered stride.good.position_le
        (fun place boundary behind before => takes place boundary behind before.le)
        (trails.mono fun place inside => ⟨inside.1, by omega, inside.2.2⟩) ran
      rw [running] at inner
      rcases left with ⟨rfl, same⟩ | ⟨rfl, checked⟩
      · cases same
        exact inner numbered
      · obtain ⟨trailsMiddle, runningMiddle⟩ := inner ((size_le_of_checkpoint checked).trans numbered)
        refine last trailsMiddle runningMiddle ?_ checked
        rw [kind, stack]
        exact takes _ stride.good.boundary ordered le_rfl

end Pass

end Highlight
