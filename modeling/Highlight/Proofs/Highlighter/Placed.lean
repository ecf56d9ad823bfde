/-
**A pass ends, whatever the distance between checkpoints.**

What a pass relies on is little: that its breaks are at boundaries of the text and in order. A break takes
a place of its own only if breaks are spaced at all; with a distance of zero there may be several at one
position:

* `Placed`: what is true of the breaks of a text after any work and any edits;
* `Pass.Roomy`: there are numbers for all that a pass may store;
* `Pass.checkpoint_leads`: then a checkpoint always goes well, and what it can lead to;
* `Pass.checkpointRun_ends`: **so do the checkpoints inside of unmatched text, unless breaks are not
  spaced and there is no deadline**, and then they never end where the frontier is inside of it,
  `Pass.checkpointRun_stalled`;
* `Pass.sink_minds`: what a pass keeps true, and what is true when it ends early.
-/

import Highlight.Proofs.Highlighter.Room
import Highlight.Proofs.Highlighter.Trail
import Highlight.Proofs.Scan.Caught

namespace Highlight

open BreakIndex (Entry)

variable {grammar : Grammar} {text : Text} {spacing : Nat}

/-! ### Breaks in order -/

/-- The breaks of a list are at boundaries of a text and in order, from the one at its start on. No two of
them are at one position, unless breaks are not spaced. -/
structure Placed (grammar : Grammar) (text : Text) (spacing : Nat) (entries : List Entry) : Prop where
  starts : entries.head? = some (BreakIndex.first, Break.first)
  apart : entries.Pairwise fun entry other =>
    entry.2.position + min 1 spacing ≤ other.2.position
  good : ∀ entry ∈ entries, entry.2.spot.Good grammar text

namespace Placed

variable {front middle back entries : List Entry} {id frontier : BreakId} {value reached : Break}

theorem initial : Placed grammar text spacing [(BreakIndex.first, Break.first)] := by
  refine ⟨rfl, List.pairwise_singleton _ _, fun entry member => ?_⟩
  rw [List.mem_singleton.mp member]
  exact Spot.good_initial grammar text

theorem ordered (placed : Placed grammar text spacing entries) : BreakIndex.Ordered entries :=
  placed.apart.imp fun before => by omega

theorem position_le (placed : Placed grammar text spacing entries) {entry : Entry}
    (member : entry ∈ entries) : entry.2.position ≤ text.size := (placed.good entry member).position_le

theorem behind (placed : Placed grammar text spacing (front ++ (id, value) :: back)) :
    ∀ entry ∈ back, value.position + min 1 spacing ≤ entry.2.position :=
  (List.pairwise_cons.mp (List.pairwise_append.mp placed.apart).2.1).1

theorem before (placed : Placed grammar text spacing (front ++ (id, value) :: back)) :
    ∀ entry ∈ front, entry.2.position + min 1 spacing ≤ value.position :=
  fun entry member => (List.pairwise_append.mp placed.apart).2.2 entry member (id, value)
    List.mem_cons_self

/-- No break up to another one is behind it. -/
theorem up_to (placed : Placed grammar text spacing (front ++ (id, value) :: back)) :
    ∀ entry ∈ front ++ [(id, value)], entry.2.position ≤ value.position := by
  intro entry member
  rcases List.mem_append.mp member with inFront | here
  · have := placed.before entry inFront
    omega
  · rw [List.mem_singleton.mp here]

/-- Breaks behind another one may be deleted. -/
theorem remove (placed : Placed grammar text spacing (front ++ (id, value) :: (middle ++ back))) :
    Placed grammar text spacing (front ++ (id, value) :: back) := by
  have kept : (front ++ (id, value) :: back).Sublist (front ++ (id, value) :: (middle ++ back)) :=
    ((List.sublist_append_right middle back).cons_cons (id, value)).append_left front
  refine ⟨?_, placed.apart.sublist kept, fun entry member => placed.good entry (kept.subset member)⟩
  rw [← placed.starts]
  cases front <;> rfl

/-- A break may be stored between two others. -/
theorem insert (placed : Placed grammar text spacing (front ++ (frontier, reached) :: back))
    (good : value.spot.Good grammar text)
    (further : reached.position + min 1 spacing ≤ value.position)
    (inFront : ∀ entry ∈ back.head?, value.position < entry.2.position) :
    Placed grammar text spacing (front ++ (frontier, reached) :: (id, value) :: back) := by
  have apart := placed.apart
  have goodAll := placed.good
  rw [List.append_cons, List.pairwise_append] at apart
  rw [List.append_cons] at goodAll
  have beyond : ∀ entry ∈ back, value.position + min 1 spacing ≤ entry.2.position := by
    cases back with
    | nil => exact fun _ member => nomatch member
    | cons next rest =>
      have first := inFront next rfl
      intro entry member
      rcases List.mem_cons.mp member with rfl | later
      · omega
      · have := (List.pairwise_cons.mp apart.2.1).1 entry later
        omega
  refine ⟨?_, ?_, ?_⟩
  · rw [← placed.starts]
    cases front <;> rfl
  · rw [List.append_cons]
    refine List.pairwise_append.mpr ⟨apart.1, List.pairwise_cons.mpr ⟨beyond, apart.2.1⟩, ?_⟩
    intro entry member other later
    have inFront := placed.up_to entry member
    rcases List.mem_cons.mp later with rfl | inBack
    · show entry.2.position + min 1 spacing ≤ value.position
      omega
    · have := beyond other inBack
      omega
  · intro entry member
    rw [List.append_cons] at member
    rcases List.mem_append.mp member with old | new
    · exact goodAll entry (List.mem_append_left _ old)
    · rcases List.mem_cons.mp new with rfl | later
      · exact good
      · exact goodAll entry (List.mem_append_right _ later)

/-- Spaced breaks are at different positions, so that there is one for each byte at most, and the one at the
start. -/
theorem length_le (placed : Placed grammar text spacing entries) (spaced : 0 < spacing) :
    entries.length ≤ text.size + 1 := by
  have apart : (entries.map fun entry => entry.2.position).Nodup :=
    List.pairwise_map.mpr (placed.apart.imp fun before => by omega)
  have within : (entries.map fun entry => entry.2.position) ⊆ List.range (text.size + 1) := by
    intro position member
    obtain ⟨entry, inEntries, rfl⟩ := List.mem_map.mp member
    exact List.mem_range.mpr (Nat.lt_succ_of_le (placed.position_le inEntries))
  have bound := (apart.subperm within).length_le
  rwa [List.length_map, List.length_range] at bound

end Placed

namespace Pass

/-! ### Checkpoints -/

/-- The breaks of a pass are placed, and its frontier is between two positions. -/
def Stands (grammar : Grammar) (text : Text) (spacing low high : Nat) (pass : Pass) : Prop :=
  ∃ behind reached ahead, pass.breaks.Holds (behind ++ (pass.frontier, reached) :: ahead) ∧
    Placed grammar text spacing (behind ++ (pass.frontier, reached) :: ahead) ∧
    low ≤ reached.position ∧ reached.position ≤ high

/-- What a checkpoint can lead to at the place `value`, with the frontier at `reached`. -/
inductive Leads (grammar : Grammar) (text : Text) (plan : PassPlan) (pass : Pass)
    (behind : List Entry) (reached : Break) (ahead : List Entry) (value : Break) :
    Pass × Flow → Prop where
  /-- No break is due, and no old one is passed. -/
  | notDue (near : value.position < reached.position + plan.spacing)
      (before : ∀ entry ∈ ahead.head?, value.position < entry.2.position) :
      Leads grammar text plan pass behind reached ahead value (pass, .proceed)
  /-- The frontier has advanced to the place. -/
  | stored {after : Pass} {flow : Flow} {rest : List Entry}
      (holds : after.breaks.Holds
        (behind ++ (pass.frontier, reached) :: (after.frontier, value) :: rest))
      (placed : Placed grammar text plan.spacing
        (behind ++ (pass.frontier, reached) :: (after.frontier, value) :: rest))
      (later : rest <:+ ahead)
      (due : reached.position + plan.spacing ≤ value.position ∨ rest.length < ahead.length)
      (outcome : flow = .proceed ∧ after.interrupt = pass.interrupt ∧
          plan.deadline.isOver pass.looks = false ∧ after.looks = pass.looks + 1 ∨
        flow = .halt ∧ after.interrupt = some .deadline ∧ plan.deadline ≠ .never) :
      Leads grammar text plan pass behind reached ahead value (after, flow)
  /-- The same break was there, and what follows it still holds. -/
  | met {after : Pass} {entries : List Entry}
      (holds : after.breaks.Holds (behind ++ (pass.frontier, reached) :: entries))
      (placed : Placed grammar text plan.spacing (behind ++ (pass.frontier, reached) :: entries))
      (later : entries <:+ ahead)
      (same : ∃ entry ∈ ahead, entry.2 = value) (last : after.frontier = after.breaks.last)
      (interrupt : after.interrupt = some .fixedPoint) :
      Leads grammar text plan pass behind reached ahead value (after, .halt)

variable {plan : PassPlan} {pass after : Pass} {behind ahead : List Entry} {reached value : Break}

/-- There are as many slots as spaced breaks may yet need, one for each stretch of the text that is left
behind the frontier. -/
def Spares (plan : PassPlan) (slots : Nat) (pass : Pass) : Prop :=
  0 < plan.spacing ∧ ∃ position, pass.breaks.position pass.frontier = .ok position ∧
    pass.breaks.nodes.size + (plan.text.size - position) / plan.spacing ≤ slots

theorem Spares.mono {slots most : Nat} (spares : Spares plan slots pass) (le : slots ≤ most) :
    Spares plan most pass := by
  obtain ⟨spaced, position, here, few⟩ := spares
  exact ⟨spaced, position, here, few.trans le⟩

theorem Spares.size_le {slots : Nat} (spares : Spares plan slots pass) :
    pass.breaks.nodes.size ≤ slots := by
  obtain ⟨-, position, -, few⟩ := spares
  exact (Nat.le_add_right _ _).trans few

/-- There are numbers for all that a pass may store: breaks are spaced and the text is short, or else there
are for as many as its deadline allows, `most` if it has none, or as fit in the text. -/
def Roomy (plan : PassPlan) (most : Nat) (pass : Pass) : Prop :=
  0 < plan.spacing ∧ plan.text.size < BreakIndex.idRange ∨ Affords plan BreakIndex.idRange most pass ∨
    Spares plan BreakIndex.idRange pass

theorem Roomy.mono {fewer most : Nat} (roomy : Roomy plan most pass)
    (le : plan.deadline = .never → fewer ≤ most) : Roomy plan fewer pass :=
  roomy.imp_right (Or.imp_left fun affords => affords.mono le)

/-- Then a checkpoint has room for its break. -/
theorem Roomy.hasRoom {most : Nat} (roomy : Roomy plan (most + 1) pass) (sameText : plan.text = text)
    (holds : pass.breaks.Holds (behind ++ (pass.frontier, reached) :: ahead))
    (placed : Placed grammar text plan.spacing (behind ++ (pass.frontier, reached) :: ahead))
    (good : value.spot.Good grammar text) : HasRoom plan pass reached ahead value := by
  intro far before
  rcases roomy with ⟨spaced, short⟩ | affords | ⟨spaced, position, here, few⟩
  · -- With the new break there would still be one for each byte at most.
    have more : Placed grammar text plan.spacing
        (behind ++ (pass.frontier, reached) :: (pass.frontier, value) :: ahead) :=
      placed.insert good (by omega) before
    have few := more.length_le spaced
    by_cases free : pass.breaks.free = []
    · have slots := holds.length_add_free
      rw [free] at slots
      simp only [List.length_append, List.length_cons, List.length_nil] at few slots
      rw [sameText] at short
      exact Or.inr (by omega)
    · exact Or.inl free
  · have some := plan.deadline.stores_pos most pass.looks
    unfold Affords at affords
    exact Or.inr (by omega)
  · -- A stretch of the text lies between the frontier and the new break.
    cases here.symm.trans holds.position_eq
    have inText : value.position ≤ plan.text.size := sameText ▸ good.position_le
    have stretch : 1 ≤ (plan.text.size - reached.position) / plan.spacing :=
      (Nat.one_le_div_iff spaced).mpr (by omega)
    exact Or.inr (by omega)

/-- **A checkpoint always goes well**, if it is not before the frontier and has room for its break. -/
theorem checkpoint_leads (holds : pass.breaks.Holds (behind ++ (pass.frontier, reached) :: ahead))
    (placed : Placed grammar text plan.spacing (behind ++ (pass.frontier, reached) :: ahead))
    (good : value.spot.Good grammar text) (room : HasRoom plan pass reached ahead value)
    (below : reached.position ≤ value.position) :
    ∃ outcome, checkpoint plan pass value = .ok outcome ∧
      Leads grammar text plan pass behind reached ahead value outcome := by
  obtain ⟨outcome, went, checks⟩ := exists_checks holds room below
  refine ⟨outcome, went, ?_⟩
  -- Where no old break is met the pass goes on from the new one, unless its time is over.
  have goesOn : ∀ {breaks id rest} (marker : Option Nat),
      breaks.Holds (behind ++ (pass.frontier, reached) :: (id, value) :: rest) →
      Placed grammar text plan.spacing (behind ++ (pass.frontier, reached) :: (id, value) :: rest) →
      rest <:+ ahead →
      (reached.position + plan.spacing ≤ value.position ∨ rest.length < ahead.length) →
      Leads grammar text plan pass behind reached ahead value
        (advanced plan pass breaks id marker) := by
    intro breaks id rest marker holds placed later due
    unfold advanced
    split
    · rename_i late
      refine .stored holds placed later due (Or.inr ⟨rfl, rfl, fun never => ?_⟩)
      rw [never] at late
      cases late
    · rename_i early
      exact .stored holds placed later due (Or.inl ⟨rfl, rfl, Bool.eq_false_iff.mpr early, rfl⟩)
  cases checks with
  | notDue early =>
    refine .notDue (not_le.mp fun far => early (Or.inl far)) fun entry atHead => ?_
    exact not_le.mp fun passed => early (Or.inr ⟨entry, atHead, passed⟩)
  | @inserted passed rest _ id due split unlike before holdsAfter =>
    have further : reached.position + min 1 plan.spacing ≤ value.position := by
      rcases due with far | ⟨entry, atHead, passed⟩
      · omega
      · exact (placed.behind entry (List.mem_of_mem_head? atHead)).trans passed
    subst split
    refine goesOn _ holdsAfter (placed.remove.insert good further before) ⟨passed, rfl⟩
      (due.imp_right fun ⟨entry, atHead, isPassed⟩ => ?_)
    cases passed with
    | nil => exact absurd (before entry atHead) (not_lt.mpr isPassed)
    | cons first others => exact Nat.lt_of_succ_le (by simp)
  | @reused passed rest _ id due split unlike restarted holdsAfter =>
    subst split
    exact goesOn _ holdsAfter placed.remove ⟨passed ++ [(id, value)], by simp⟩
      (Or.inr (Nat.lt_of_succ_le (by simp)))
  | @met passed rest _ id due split unlike restarted holdsAfter =>
    subst split
    exact .met holdsAfter placed.remove ⟨passed, rfl⟩ ⟨(id, value), by simp, rfl⟩ rfl rfl

/-! ### Text where nothing matches -/

/-- **The next place to store a break at can always be told.** It is where a break is due, or an old one
is passed there. -/
theorem candidate?_eq (holds : pass.breaks.Holds (behind ++ (pass.frontier, reached) :: ahead))
    (placed : Placed grammar text plan.spacing (behind ++ (pass.frontier, reached) :: ahead))
    (sameText : plan.text = text) (fits : text.size + plan.spacing ≤ maxSize) (start stop : Nat) :
    ∃ candidate, candidate? plan pass start stop = .ok candidate ∧
      (∀ place ∈ candidate, start < place ∧ place < stop ∧ text.isBoundary place = true ∧
        reached.position ≤ place ∧ (min (reached.position + plan.spacing) text.size ≤ place ∨
          ∃ entry ∈ ahead.head?, entry.2.position ≤ place)) ∧
      (start < text.ceil (reached.position + plan.spacing) →
        text.ceil (reached.position + plan.spacing) < stop →
          ∃ place ∈ candidate, place ≤ text.ceil (reached.position + plan.spacing)) := by
  have inText : reached.position ≤ text.size :=
    placed.position_le (List.mem_append_right behind List.mem_cons_self)
  have near := Text.min_le_ceil text (reached.position + plan.spacing)
  rw [candidate?_eq_bind holds, checkedAdd_eq_ok (by omega), Fault.ok_bind, sameText]
  refine ⟨_, rfl, fun place member => ?_, ?_⟩
  · obtain ⟨offered, behindStart, beforeStop⟩ := (min?_between rfl).1 place member
    refine ⟨behindStart, beforeStop, ?_⟩
    rcases List.mem_cons.mp offered with rfl | old
    · exact ⟨Text.isBoundary_ceil text _, by omega, Or.inl near⟩
    · obtain ⟨entry, atHead, rfl⟩ := Option.map_eq_some_iff.mp (Option.mem_toList.mp old)
      have inFront := List.mem_of_mem_head? atHead
      have good := placed.good entry (by simp [inFront])
      have beyond := placed.behind entry inFront
      exact ⟨good.boundary, by omega, Or.inr ⟨entry, atHead, le_rfl⟩⟩
  · exact (min?_between rfl).2 _ List.mem_cons_self

/-- A pass has ended early: at a fixed point, or because its time was over after its frontier had
advanced. -/
def Ended (grammar : Grammar) (text : Text) (plan : PassPlan) (low high : Nat) (pass : Pass) : Prop :=
  pass.interrupt = some .fixedPoint ∧ Stands grammar text plan.spacing low text.size pass ∨
    pass.interrupt = some .deadline ∧ plan.deadline ≠ .never ∧
      Stands grammar text plan.spacing (low + 1) high pass

/-- What a pass has come to after checkpoints, which may store `most` more breaks if it goes on without a
deadline. -/
def Continues (grammar : Grammar) (text : Text) (plan : PassPlan) (low high most : Nat) :
    Pass × Flow → Prop
  | (pass, .proceed) => Stands grammar text plan.spacing low high pass ∧ pass.interrupt = none ∧
      Roomy plan most pass
  | (pass, .halt) => Ended grammar text plan low high pass

theorem Stands.mono {low high bound : Nat} (stands : Stands grammar text spacing low high pass)
    (further : high ≤ bound) : Stands grammar text spacing low bound pass := by
  obtain ⟨behind, reached, ahead, holds, placed, above, below⟩ := stands
  exact ⟨behind, reached, ahead, holds, placed, above, below.trans further⟩

theorem Ended.mono {low high bound : Nat} (ended : Ended grammar text plan low high pass)
    (further : high ≤ bound) : Ended grammar text plan low bound pass :=
  ended.imp_right fun ⟨late, elapsed, stands⟩ => ⟨late, elapsed, stands.mono further⟩

/-- A pass whose frontier is the last break stands there. -/
theorem stands_of_last {entries : List Entry} {id : BreakId}
    (holds : pass.breaks.Holds (behind ++ (id, reached) :: entries))
    (placed : Placed grammar text spacing (behind ++ (id, reached) :: entries))
    (last : pass.frontier = pass.breaks.last) :
    Stands grammar text spacing reached.position text.size pass := by
  obtain ⟨front, ⟨final, value⟩, split⟩ : ∃ front entry,
      behind ++ (id, reached) :: entries = front ++ [entry] :=
    (List.eq_nil_or_concat' _).resolve_left
      (List.append_ne_nil_of_right_ne_nil _ (List.cons_ne_nil _ _))
  have notBefore : reached.position ≤ value.position := by
    have atEnd : (final, value) ∈ (id, reached) :: entries := by
      refine List.mem_of_getLast? ?_
      have same := congrArg List.getLast? split
      rw [List.getLast?_append, List.getLast?_concat, List.getLast?_cons, Option.some_or] at same
      rw [List.getLast?_cons, same]
    rcases List.mem_cons.mp atEnd with here | later
    · rw [(Prod.mk.inj here).2]
    · exact (Nat.le_add_right _ _).trans (placed.behind (final, value) later)
  rw [split] at holds placed
  have last_eq : pass.breaks.last = final := by
    have atEnd := holds.last
    rw [BreakIndex.lastId_append, BreakIndex.lastId_cons] at atEnd
    exact (Option.some_inj.mp atEnd).symm
  have inText := placed.position_le (List.mem_append_right front (List.mem_singleton_self _))
  rw [← last_eq, ← last] at holds placed
  exact ⟨front, value, [], holds, placed, notBefore, inText⟩

/-- A checkpoint that went well led to this, if it had room for its break. -/
theorem leads_of_checkpoint {outcome : Pass × Flow}
    (holds : pass.breaks.Holds (behind ++ (pass.frontier, reached) :: ahead))
    (placed : Placed grammar text plan.spacing (behind ++ (pass.frontier, reached) :: ahead))
    (good : value.spot.Good grammar text) (room : HasRoom plan pass reached ahead value)
    (went : Pass.checkpoint plan pass value = .ok outcome) :
    Leads grammar text plan pass behind reached ahead value outcome := by
  obtain ⟨other, wentToo, leads⟩ := checkpoint_leads holds placed good room (le_of_checkpoint holds went)
  cases went.symm.trans wentToo
  exact leads

/-- After a checkpoint a pass stands somewhere, also if it has ended there. -/
theorem Leads.stands {outcome : Pass × Flow}
    (leads : Leads grammar text plan pass behind reached ahead value outcome)
    (holds : pass.breaks.Holds (behind ++ (pass.frontier, reached) :: ahead))
    (placed : Placed grammar text plan.spacing (behind ++ (pass.frontier, reached) :: ahead)) :
    ∃ high, Stands grammar text plan.spacing reached.position high outcome.1 := by
  cases leads with
  | notDue => exact ⟨reached.position, behind, reached, ahead, holds, placed, le_rfl, le_rfl⟩
  | @stored after flow rest holds placed later due outcome =>
    have further : reached.position + min 1 plan.spacing ≤ value.position :=
      placed.behind (after.frontier, value) List.mem_cons_self
    rw [List.append_cons] at holds placed
    exact ⟨value.position, _, value, rest, holds, placed, by omega, le_rfl⟩
  | met holds placed later same last interrupt => exact ⟨text.size, stands_of_last holds placed last⟩

/-- Where a checkpoint makes a slot, a stretch of the text lies behind the new frontier. -/
theorem Leads.spares {slots : Nat} {outcome : Pass × Flow}
    (leads : Leads grammar text plan pass behind reached ahead value outcome)
    (holds : pass.breaks.Holds (behind ++ (pass.frontier, reached) :: ahead))
    (grows : pass.breaks.Grows outcome.1.breaks) (inText : value.position ≤ plan.text.size)
    (spares : Spares plan slots pass) : Spares plan slots outcome.1 := by
  obtain ⟨spaced, position, here, few⟩ := spares
  cases here.symm.trans holds.position_eq
  have before := holds.length_le
  rw [List.length_append, List.length_cons] at before
  have oneMore := grows.size_le
  cases leads with
  | notDue => exact ⟨spaced, _, here, few⟩
  | @stored after flow rest holdsAfter placedAfter later due outcome =>
    have most := grows.size_le_max holdsAfter
    have further : reached.position + min 1 plan.spacing ≤ value.position :=
      placedAfter.behind (after.frontier, value) List.mem_cons_self
    rw [List.append_cons] at holdsAfter
    refine ⟨spaced, value.position, holdsAfter.position_eq, ?_⟩
    simp only [List.length_append, List.length_cons] at most
    rcases due with far | fewer
    · have stretch : (plan.text.size - value.position) / plan.spacing + 1 ≤
          (plan.text.size - reached.position) / plan.spacing := by
        rw [← Nat.add_div_right _ spaced]
        exact Nat.div_le_div_right (by omega)
      simp only at oneMore ⊢
      omega
    · have shorter : (plan.text.size - value.position) / plan.spacing ≤
          (plan.text.size - reached.position) / plan.spacing := Nat.div_le_div_right (by omega)
      simp only at most ⊢
      omega
  | @met after entries holdsAfter placedAfter later same last interrupt =>
    have most := grows.size_le_max holdsAfter
    have fewer := later.length_le
    obtain ⟨front, final, rest, holdsFinal, -, above, -⟩ := stands_of_last holdsAfter placedAfter last
    refine ⟨spaced, final.position, holdsFinal.position_eq, ?_⟩
    have shorter : (plan.text.size - final.position) / plan.spacing ≤
        (plan.text.size - reached.position) / plan.spacing := Nat.div_le_div_right (by omega)
    simp only [List.length_append, List.length_cons] at most ⊢
    omega

theorem Roomy.checkpoint {most : Nat} (roomy : Roomy plan (most + 1) pass)
    (leads : Leads grammar text plan pass behind reached ahead value (after, .proceed))
    (holds : pass.breaks.Holds (behind ++ (pass.frontier, reached) :: ahead))
    (inText : value.position ≤ plan.text.size)
    (went : Pass.checkpoint plan pass value = .ok (after, .proceed)) : Roomy plan most after :=
  roomy.imp_right (Or.imp (fun affords => affords.checkpoint went)
    fun spares => leads.spares holds (grows_of_checkpoint went) inText spares)

/-- What a checkpoint leads to behind the position where the pass began. -/
theorem Leads.continues {low most : Nat} {outcome : Pass × Flow}
    (leads : Leads grammar text plan pass behind reached ahead value outcome)
    (went : Pass.checkpoint plan pass value = .ok outcome)
    (holds : pass.breaks.Holds (behind ++ (pass.frontier, reached) :: ahead))
    (placed : Placed grammar text plan.spacing (behind ++ (pass.frontier, reached) :: ahead))
    (roomy : Roomy plan (most + 1) pass) (inText : value.position ≤ plan.text.size)
    (above : low ≤ reached.position) (further : low < value.position)
    (below : reached.position ≤ value.position) (running : pass.interrupt = none) :
    Continues grammar text plan low value.position most outcome := by
  have roomyAfter : ∀ {after : Pass}, outcome = (after, .proceed) → Roomy plan most after := by
    rintro after rfl
    exact roomy.checkpoint leads holds inText went
  cases leads with
  | notDue =>
    exact ⟨⟨behind, reached, ahead, holds, placed, above, below⟩, running, roomyAfter rfl⟩
  | @stored after flow rest holds placed later due outcome =>
    rw [List.append_cons] at holds placed
    rcases outcome with ⟨rfl, same, -⟩ | ⟨rfl, late, elapsed⟩
    · exact ⟨⟨_, value, rest, holds, placed, further.le, le_rfl⟩, same.trans running,
        roomyAfter rfl⟩
    · exact Or.inr ⟨late, elapsed, _, value, rest, holds, placed, further, le_rfl⟩
  | met holds placed later same last interrupt =>
    obtain ⟨front, final, rest, holds, placed, further, inText⟩ := stands_of_last holds placed last
    exact Or.inl ⟨interrupt, front, final, rest, holds, placed, above.trans further, inText⟩

/-- The one fault a pass may end in: breaks are not spaced, and it does not get on, with no deadline to
end it. -/
def Stalls (spacing : Nat) (deadline : Deadline) (fault : Fault) : Prop :=
  spacing = 0 ∧ deadline = .never ∧ fault = .stalled

/-- **The checkpoints inside of unmatched text come to an end**, unless breaks are not spaced and there is
no deadline: spaced breaks are further on each time, and a deadline allows for so many looks. -/
theorem checkpointRun_ends (sameText : plan.text = text) (fits : text.size + plan.spacing ≤ maxSize)
    {start stop low fuel most : Nat} {stack : PatternStack} (known : stack.Known grammar)
    (begins : low ≤ start) (ordered : start < stop) (inText : stop ≤ text.size)
    (holds : pass.breaks.Holds (behind ++ (pass.frontier, reached) :: ahead))
    (placed : Placed grammar text plan.spacing (behind ++ (pass.frontier, reached) :: ahead))
    (roomy : Roomy plan (fuel + most) pass)
    (above : low ≤ reached.position) (below : reached.position ≤ stop)
    (running : pass.interrupt = none)
    (enough : 0 < plan.spacing → stop < fuel + max start reached.position)
    (enoughToo : plan.deadline ≠ .never → plan.deadline.left pass.looks < fuel) :
    Fault.Ends (Stalls plan.spacing plan.deadline) (Continues grammar text plan low stop most)
      (checkpointRun plan start stop stack fuel pass) := by
  induction fuel generalizing pass behind reached ahead with
  | zero =>
    exact ⟨by omega, not_not.mp fun limited => Nat.not_lt_zero _ (enoughToo limited), rfl⟩
  | succ fuel ih =>
    obtain ⟨candidate, found, spec, -⟩ := candidate?_eq holds placed sameText fits start stop
    rw [checkpointRun, found, Fault.ok_bind]
    cases candidate with
    | none =>
      exact ⟨⟨behind, reached, ahead, holds, placed, above, below⟩, running,
        roomy.mono fun _ => by omega⟩
    | some place =>
      obtain ⟨behindStart, beforeStop, boundary, notBefore, due⟩ := spec place rfl
      have good : (Break.mk place .inner stack).spot.Good grammar text := ⟨boundary, known⟩
      rw [Nat.succ_add] at roomy
      obtain ⟨⟨after, flow⟩, went, leads⟩ :=
        checkpoint_leads holds placed good (roomy.hasRoom sameText holds placed good) notBefore
      have within : place ≤ plan.text.size := sameText ▸ good.position_le
      have continues := leads.continues went holds placed roomy within above
        (begins.trans_lt behindStart) notBefore running
      simp only [went, Fault.ok_bind]
      cases flow with
      | halt => exact Ended.mono continues beforeStop.le
      | proceed =>
        cases leads with
        | notDue near before =>
          -- The place is one where a break is due, or an old one is passed.
          change place < reached.position + plan.spacing at near
          rcases due with isDue | ⟨entry, atHead, passed⟩
          · omega
          · exact absurd (before entry atHead) (not_lt.mpr passed)
        | stored holds' placed' later due outcome =>
          have further : reached.position + min 1 plan.spacing ≤ place :=
            placed'.behind (after.frontier, _) List.mem_cons_self
          rw [List.append_cons] at holds' placed'
          obtain ⟨-, goesOn, roomyAfter⟩ := continues
          refine ih holds' placed' roomyAfter (begins.trans behindStart.le) beforeStop.le goesOn
            (fun spaced => ?_) fun limited => ?_
          · have := enough spaced
            show stop < fuel + max start place
            omega
          · rcases outcome with ⟨-, -, early, looks⟩ | ⟨halts, -⟩
            · have fewer := Deadline.left_succ early limited
              have looksLeft := enoughToo limited
              rw [looks]
              omega
            · cases halts

/-- **Where breaks are not spaced, no number of checkpoints gets on from a frontier inside of unmatched
text**, if the time is never over, as long as there are numbers for the breaks that are stored. -/
theorem checkpointRun_stalled (sameText : plan.text = text) (small : text.size ≤ maxSize)
    (unspaced : plan.spacing = 0) (never : plan.deadline = .never) {start stop : Nat}
    {stack : PatternStack} (known : stack.Known grammar)
    (holds : pass.breaks.Holds (behind ++ (pass.frontier, reached) :: ahead))
    (placed : Placed grammar text plan.spacing (behind ++ (pass.frontier, reached) :: ahead))
    (behindStart : start < reached.position) (beforeStop : reached.position < stop)
    (fresh : ∀ entry ∈ ahead, entry.2 ≠ ⟨reached.position, .inner, stack⟩) {fuel : Nat}
    (roomy : Roomy plan fuel pass) :
    checkpointRun plan start stop stack fuel pass = .error .stalled := by
  induction fuel generalizing pass behind reached ahead with
  | zero => rfl
  | succ fuel ih =>
    have good := placed.good (pass.frontier, reached) (List.mem_append_right behind List.mem_cons_self)
    have due : text.ceil (reached.position + plan.spacing) = reached.position := by
      rw [unspaced, Nat.add_zero]
      have inText : reached.position ≤ text.size := good.position_le
      have least := text.isLeast_ceil inText
      exact le_antisymm (least.2 ⟨good.boundary, le_rfl⟩) least.1.2
    obtain ⟨candidate, found, spec, first⟩ :=
      candidate?_eq holds placed sameText (by omega) start stop
    rw [due] at first
    obtain ⟨place, rfl, notBehind⟩ := first behindStart beforeStop
    obtain ⟨-, -, -, notBefore, -⟩ := spec place rfl
    obtain rfl : place = reached.position := le_antisymm notBehind notBefore
    rw [checkpointRun, found, Fault.ok_bind]
    have goodHere : (Break.mk reached.position .inner stack).spot.Good grammar text :=
      ⟨good.boundary, known⟩
    obtain ⟨⟨after, flow⟩, went, leads⟩ :=
      checkpoint_leads holds placed goodHere (roomy.hasRoom sameText holds placed goodHere) le_rfl
    simp only [went, Fault.ok_bind]
    cases leads with
    | notDue near before =>
      change reached.position < reached.position + plan.spacing at near
      omega
    | stored holds' placed' later due outcome =>
      rcases outcome with ⟨rfl, same⟩ | ⟨-, -, limited⟩
      · have roomyAfter : Roomy plan fuel after :=
          roomy.checkpoint (.stored holds' placed' later due (Or.inl ⟨rfl, same⟩)) holds
            (sameText ▸ goodHere.position_le) went
        rw [List.append_cons] at holds' placed'
        exact ih holds' placed' behindStart beforeStop
          (fun entry member => fresh entry (later.subset member)) roomyAfter
      · exact absurd never limited
    | met holds' placed' later same last interrupt =>
      obtain ⟨entry, member, same⟩ := same
      exact absurd same (fresh entry member)

/-! ### Passes -/

/-- **What a pass keeps true**: its breaks are placed, its frontier is not behind the scan, and there is
room for what it may store. It fails only if breaks are not spaced and there is no deadline. -/
theorem sink_minds {made : ScanState → Move → Prop} (makes : grammar.Makes text made)
    (sameText : plan.text = text) (fits : text.size + plan.spacing ≤ maxSize) (low : Nat) :
    (Pass.sink plan).Minds grammar text made
      (fun pass state => Stands grammar text plan.spacing low state.position pass ∧
        pass.interrupt = none ∧ Roomy plan (3 * (text.size - state.position)) pass)
      (fun pass state => Ended grammar text plan low state.position pass)
      (Stalls plan.spacing plan.deadline) := by
  constructor
  · rintro pass state move good minded isMade silent
    exact (makes.stride isMade).silent silent ▸ minded
  · rintro pass state move token good ⟨stands, running, roomy⟩ isMade delivered
    have stride := makes.stride isMade
    obtain ⟨sound, starts, stops, -⟩ := stride.token token delivered
    have ordered := stride.lt delivered
    have inText := stride.good.position_le
    have begins : low ≤ state.position := by
      obtain ⟨behind, reached, ahead, holds, placed, above, below⟩ := stands
      exact above.trans below
    have goodBreak : (Break.mk move.state.position token.kind move.state.stack).spot.Good grammar
        text := ⟨stride.good.boundary, stride.good.known⟩
    have last : ∀ {middle : Pass},
        Continues grammar text plan low move.state.position
          (3 * (text.size - move.state.position) + 1) (middle, .proceed) →
        Fault.Ends (Stalls plan.spacing plan.deadline)
          (Continues grammar text plan low move.state.position (3 * (text.size - move.state.position)))
          (checkpoint plan middle ⟨move.state.position, token.kind, move.state.stack⟩) := by
      rintro middle ⟨⟨behind, reached, ahead, holds, placed, above, below⟩, running, roomy⟩
      obtain ⟨outcome, went, leads⟩ := checkpoint_leads holds placed goodBreak
        (roomy.hasRoom sameText holds placed goodBreak) below
      rw [went]
      exact leads.continues went holds placed roomy (sameText ▸ inText) above
        (begins.trans_lt ordered) below running
    have ended : Fault.Ends (Stalls plan.spacing plan.deadline)
        (Continues grammar text plan low move.state.position (3 * (text.size - move.state.position)))
        (Pass.sink plan pass token move.state) := by
      unfold Pass.sink
      simp only
      split
      · rename_i plain
        obtain ⟨behind, reached, ahead, holds, placed, above, below⟩ := stands
        have known := stride.good.known
        have steps : Roomy plan (move.state.position - token.start + 1 +
            plan.deadline.left pass.looks + (3 * (text.size - move.state.position) + 1)) pass :=
          roomy.imp_right (Or.imp_left fun affords =>
            Affords.steps (starts ▸ affords) (starts.trans_lt ordered) inText)
        have ran : Fault.Ends (Stalls plan.spacing plan.deadline)
            (Continues grammar text plan low move.state.position
              (3 * (text.size - move.state.position) + 1))
            (checkpointRun plan token.start move.state.position move.state.stack
              (move.state.position - token.start + 1 + plan.deadline.left pass.looks) pass) :=
          checkpointRun_ends sameText fits known (begins.trans starts.ge) (starts.trans_lt ordered)
            inText holds placed steps above (by omega) running (by omega) (by omega)
        refine ran.bind ?_
        rintro ⟨middle, flow⟩ continues
        cases flow with
        | halt => exact continues
        | proceed => exact last continues
      · exact last ⟨stands.mono ordered.le, running, roomy.mono fun _ => by omega⟩
    refine ended.mono ?_
    rintro ⟨after, flow⟩ continues
    cases flow with
    | halt => exact continues
    | proceed => exact continues

/-- **What every checkpoint at a place of the text keeps true of a pass is true after a scan.** The places
are such as long as the breaks are placed. -/
theorem sink_keeps_placed {made : ScanState → Move → Prop} (makes : grammar.Makes text made)
    (sameText : plan.text = text) (fits : text.size + plan.spacing ≤ maxSize) {motive : Pass → Prop}
    (stands : ∀ {pass}, motive pass → pass.breaks.Numbered →
      ∃ low high, Stands grammar text plan.spacing low high pass)
    (check : ∀ {pass after flow value}, motive pass →
      (pass.breaks.Numbered → value.spot.Good grammar text) →
        Pass.checkpoint plan pass value = .ok (after, flow) → motive after) :
    (sink plan).Keeps grammar text made (fun pass _ => motive pass) fun pass _ => motive pass := by
  constructor
  · exact fun _ kept _ _ => kept
  · intro pass state move token after flow _ kept isMade _ went
    have stride := makes.stride isMade
    have keptAfter : motive after := by
      refine sink_induct (motive := motive) ?_ kept went
      intro pass after flow value kept chosen went
      refine check kept (fun numbered => ?_) went
      cases chosen with
      | boundary => exact ⟨stride.good.boundary, stride.good.known⟩
      | @inside place plain here =>
        obtain ⟨low, high, behind, reached, ahead, holds, placed, -⟩ := stands kept numbered
        obtain ⟨candidate, found, spec, -⟩ :=
          candidate?_eq holds placed sameText fits token.start move.state.position
        cases here.symm.trans found
        exact ⟨(spec place rfl).2.2.1, stride.good.known⟩
    cases flow <;> exact keptAfter

end Pass

end Highlight
