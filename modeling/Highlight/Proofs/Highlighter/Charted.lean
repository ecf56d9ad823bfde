/-
**What is asked of the breaks is kept by work and by edits.**

* `Highlighter.Charted`: **the breaks of a highlighter are as they should be for its text**;
* `Highlighter.Charted.process_spec`: a slice of work keeps them so, and tells where it has been;
* `Highlighter.Relied`: an old break that may be relied on after an edit is one that could be before, or
  nothing was left to process;
* `Highlighter.Survives`: what an edit has to leave of the demands;
* `Highlighter.Charted.edit_spec`: then it keeps the breaks as they should be for the new text.
-/

import Highlight.Proofs.Highlighter.Restart
import Highlight.Proofs.Highlighter.Trail
import Highlight.Highlighter.Basic

namespace Highlight

open BreakIndex (Entry)

variable {grammar : Grammar} {text edited : Text} {change : Change}

namespace Highlighter

/-- The breaks of a highlighter are as they should be. Where there is nothing left to process, all of them
are. -/
structure Charted (text : Text) (demands : Demands) (highlighter : Highlighter) (behind : List Entry)
    (reached : Break) (ahead : List Entry) : Prop where
  held : text.Held
  spaced : 0 < highlighter.config.spacing
  tracks : Trail highlighter.grammar text demands highlighter.breaks highlighter.frontier
    highlighter.restartEnd behind reached ahead
  idle : highlighter.needsProcessing = false → highlighter.restartEnd = none ∧ ahead = [] ∧
    (highlighter.grammar.hasPatterns = true → demands.last reached)
  plain : highlighter.grammar.hasPatterns = false →
    highlighter.needsProcessing = false ∧ behind = []

variable {demands : Demands} {highlighter after : Highlighter} {behind ahead : List Entry}
  {reached : Break}

theorem Charted.frontierPosition_eq (charted : Charted text demands highlighter behind reached ahead) :
    highlighter.frontierPosition = .ok reached.position := charted.tracks.position_eq

/-- After a fresh start the breaks are as they should be. -/
theorem charted_reset (highlighter : Highlighter) (held : text.Held)
    (spaced : 0 < highlighter.config.spacing) (first : demands.reached Break.first) :
    Charted text demands (highlighter.reset text.size) [] Break.first [] := by
  refine ⟨held, spaced, .initial first, fun idle => ⟨rfl, rfl, fun patterned => ?_⟩,
    fun plain => ⟨plain, rfl⟩⟩
  cases patterned.symm.trans idle

theorem charted_ofSize (grammar : Grammar) {config : Config} (held : text.Held)
    (spaced : 0 < config.spacing) (first : demands.reached Break.first) :
    Charted text demands (ofSize grammar config text.size) [] Break.first [] :=
  charted_reset ⟨grammar, config, .initial, BreakIndex.first, none, none, false, none⟩ held spaced first

/-- What may have changed has no part in this. -/
theorem Charted.takeDirty (charted : Charted text demands highlighter behind reached ahead) :
    Charted text demands highlighter.takeDirty.2 behind reached ahead :=
  ⟨charted.held, charted.spaced, charted.tracks, charted.idle, charted.plain⟩

/-- **The checkpoint before a position is the last break at or before it that fits the text.** -/
theorem Charted.checkpointBefore_spec
    (charted : Charted text demands highlighter behind reached ahead) (hint : Option BreakId)
    (position : Nat) :
    ∃ front id value back, behind ++ (highlighter.frontier, reached) :: ahead =
        front ++ (id, value) :: back ∧
      highlighter.checkpointBefore hint position = .ok id ∧
      highlighter.breaks.get id = .ok value ∧ value.position ≤ min position reached.position ∧
      ∀ entry ∈ back, min position reached.position < entry.2.position := by
  have begins : ∀ entry ∈ (behind ++ (highlighter.frontier, reached) :: ahead).head?,
      entry.2.position ≤ min position reached.position := by
    intro entry atHead
    rw [charted.tracks.starts] at atHead
    cases atHead
    exact Nat.zero_le _
  obtain ⟨front, id, value, back, split, sought, before, next⟩ :=
    charted.tracks.holds.seekBefore_spec charted.tracks.sorted.ordered begins hint
  refine ⟨front, id, value, back, split, ?_, ?_, before, next⟩
  · unfold checkpointBefore
    rw [charted.frontierPosition_eq]
    exact sought
  · refine charted.tracks.holds.get_of_mem ?_
    rw [split]
    simp

/-! ### Slices of work -/

/-- What a slice of work has come to that began at the break `reached` and scanned up to `stop`. -/
structure Worked (text : Text) (demands : Demands) (early : Prop) (highlighter : Highlighter)
    (reached : Break) (after : Highlighter) (stop : Nat) (behind : List Entry) (final : Break)
    (ahead : List Entry) : Prop where
  charted : Charted text demands after behind final ahead
  old : ahead ≠ [] → early
  grammar : after.grammar = highlighter.grammar
  config : after.config = highlighter.config
  forward : reached.position ≤ stop
  inside : stop ≤ text.size
  dirty : after.dirty = Span.add highlighter.dirty ⟨reached.position, stop⟩
  pending : after.needsProcessing = true → final.position ≤ stop
  /-- The text has been scanned up to its end, or an old break that could be relied on was met. -/
  idle : after.needsProcessing = false → text.size ≤ stop ∨
    ∃ value : Break, demands.reached value ∧ demands.kept value ∧
      reached.position < value.position ∧ value.position ≤ stop

theorem process_of_idle (idle : highlighter.needsProcessing = false) (text : Text)
    (deadline : Deadline) : highlighter.process text deadline = .ok (0, highlighter) := by
  unfold process
  rw [if_pos (by rw [idle]; exact Bool.false_ne_true)]
  rfl

/-- A slice of work does nothing, or it scans from the frontier on. What it makes of the index is what the
pass has made of it, less the breaks behind the frontier if the text has been scanned to its end. -/
theorem exists_run_of_process {deadline : Deadline} {scanned : Nat}
    (went : highlighter.process text deadline = .ok (scanned, after)) :
    highlighter.needsProcessing = false ∧ after = highlighter ∨
      after.grammar = highlighter.grammar ∧ after.config = highlighter.config ∧
      ∃ unit value pass state ending, highlighter.config.windowUnit = .ok unit ∧
        highlighter.breaks.get highlighter.frontier = .ok value ∧
        (Scanner.ofUnit highlighter.grammar unit).run text
          (Pass.sink ⟨text, highlighter.config.spacing, deadline⟩) text.size (.ofBreak value)
          ⟨highlighter.breaks, highlighter.frontier, highlighter.restartEnd, 0, none⟩ =
            .ok (pass, state, ending) ∧
        after.frontier = pass.frontier ∧ (pass.restartEnd = none → after.restartEnd = none) ∧
        (after.breaks = pass.breaks ∧ (pass.interrupt = none → ending ≠ .endOfText) ∨
          pass.interrupt = none ∧ pass.breaks.truncateAfter pass.frontier = .ok after.breaks) := by
  rcases highlighter with
    ⟨grammar, config, breaks, frontier, restartEnd, lastRestart, needsProcessing, dirty⟩
  unfold process at went
  split at went
  · rename_i idle
    cases went
    exact Or.inl ⟨Bool.not_eq_true _ ▸ idle, rfl⟩
  · obtain ⟨unit, formed, went⟩ := Fault.bind_eq_ok.mp went
    obtain ⟨value, found, went⟩ := Fault.bind_eq_ok.mp went
    obtain ⟨⟨pass, state, ending⟩, ran, went⟩ := Fault.bind_eq_ok.mp went
    have left : after.grammar = grammar ∧ after.config = config ∧ after.frontier = pass.frontier ∧
        (pass.restartEnd = none → after.restartEnd = none) ∧
        (after.breaks = pass.breaks ∧ (pass.interrupt = none → ending ≠ .endOfText) ∨
          pass.interrupt = none ∧ pass.breaks.truncateAfter pass.frontier = .ok after.breaks) := by
      obtain ⟨breaks, frontier, restartEnd, looks, interrupt⟩ := pass
      simp only at went
      split at went
      · obtain ⟨shorter, truncated, went⟩ := Fault.bind_eq_ok.mp went
        cases went
        exact ⟨rfl, rfl, rfl, fun _ => rfl, Or.inr ⟨rfl, truncated⟩⟩
      · cases went
        exact ⟨rfl, rfl, rfl, fun _ => rfl, Or.inl ⟨rfl, fun none => nomatch none⟩⟩
      · rename_i notEnded
        cases went
        exact ⟨rfl, rfl, rfl, fun unmarked => unmarked, Or.inl ⟨rfl, fun running ended =>
          notEnded running ended⟩⟩
    obtain ⟨sameGrammar, sameConfig, made⟩ := left
    exact Or.inr
      ⟨sameGrammar, sameConfig, unit, value, pass, state, ending, formed, found, ran, made⟩

/-- The pass of a slice of work has no more slots than are left. -/
theorem numbered_of_run {deadline : Deadline} {scanned unit : Nat} {value : Break} {pass : Pass}
    {state : ScanState} {ending : ScanEnd} (pending : highlighter.needsProcessing = true)
    (went : highlighter.process text deadline = .ok (scanned, after)) (numbered : after.breaks.Numbered)
    (formed : highlighter.config.windowUnit = .ok unit)
    (found : highlighter.breaks.get highlighter.frontier = .ok value)
    (ran : (Scanner.ofUnit highlighter.grammar unit).run text
      (Pass.sink ⟨text, highlighter.config.spacing, deadline⟩) text.size (.ofBreak value)
      ⟨highlighter.breaks, highlighter.frontier, highlighter.restartEnd, 0, none⟩ =
        .ok (pass, state, ending)) : pass.breaks.Numbered := by
  rcases exists_run_of_process went with ⟨idle, -⟩ |
    ⟨-, -, unitToo, valueToo, passToo, stateToo, endingToo, formedToo, foundToo, ranToo, -, -, left⟩
  · cases pending.symm.trans idle
  · cases formed.symm.trans formedToo
    cases found.symm.trans foundToo
    cases ran.symm.trans ranToo
    rcases left with ⟨same, -⟩ | ⟨-, truncated⟩
    · exact same ▸ numbered
    · exact (BreakIndex.size_of_truncateAfter truncated).ge.trans numbered

/-- **A slice of work keeps the breaks as they should be**, as long as there are numbers for all slots. -/
theorem Charted.process_spec {made : ScanState → Move → Prop} {scanned : ScanState → Prop}
    {early : Prop} (charted : Charted text demands highlighter behind reached ahead)
    (suits : Pass.Suits highlighter.grammar text made scanned demands highlighter.config.spacing early)
    (old : ahead ≠ [] → early) (pending : highlighter.needsProcessing = true) {deadline : Deadline}
    {count : Nat} (went : highlighter.process text deadline = .ok (count, after))
    (numbered : after.breaks.Numbered) :
    ∃ stop behind final ahead,
      Worked text demands early highlighter reached after stop behind final ahead := by
  obtain ⟨held, spaced, tracks, -, plain⟩ := charted
  rcases highlighter with
    ⟨grammar, config, breaks, frontier, restartEnd, lastRestart, needsProcessing, dirty⟩
  simp only at spaced tracks plain pending suits
  subst pending
  have processed := went
  unfold process at went
  simp only [not_true_eq_false, if_false, Fault.bind_eq_ok] at went
  obtain ⟨unit, formed, value, found, ⟨pass, state, ending⟩, ran, went⟩ := went
  have numberedPass := numbered_of_run rfl processed numbered formed found ran
  cases tracks.holds.get_eq.symm.trans found
  have good := tracks.good_here
  have positive := Scanner.unit_pos grammar unit
  have sameText : (PassPlan.mk text config.spacing deadline).text = text := rfl
  have keeps := Pass.sink_keeps suits spaced sameText reached.position
  have goodState : (ScanState.ofBreak reached).Good grammar text :=
    ScanState.good_startingAt good.boundary good.known
  have start_eq : (ScanState.ofBreak reached).position = reached.position := rfl
  have trails : Pass.Trails grammar text demands early
      (fun place => reached.position ≤ place ∧ place ≤ (ScanState.ofBreak reached).position ∧
        (ScanState.ofBreak reached).position < place + config.spacing)
      ⟨breaks, frontier, restartEnd, 0, none⟩ :=
    ⟨behind, reached, ahead, tracks, old, le_rfl, le_rfl, by omega⟩
  have ends := (Scanner.ofUnit grammar unit).run_ends suits.makes held keeps text.size
    (fun _ => Or.inr trivial) positive goodState
    fun _ => ⟨trails, rfl, suits.starts good tracks.reached_here⟩
  rw [start_eq] at went
  rw [ran] at ends
  have patterned : grammar.hasPatterns = false → False := fun none => by cases (plain none).1
  rcases pass with ⟨breaks', frontier', restartEnd', looks, interrupt⟩
  obtain ⟨goodFinal, outcome⟩ := ends
  have inside := goodFinal.position_le
  replace outcome := outcome.imp (And.imp_left fun kept => kept numberedPass)
    (And.imp_left fun halted => halted numberedPass)
  rcases outcome with ⟨⟨trails, running, -⟩, further, ended⟩ | ⟨halted, -⟩
  · -- The text has been scanned to its end, so that old breaks behind the frontier are deleted.
    obtain ⟨behind', final, ahead', tracks', old', above, below, near⟩ := trails
    change state.position < final.position + config.spacing at near
    rw [min_self] at further
    cases ended.mpr further
    cases running
    simp only [Fault.bind_eq_ok] at went
    obtain ⟨truncated, deleted, went⟩ := went
    obtain ⟨index, cut, holds⟩ := tracks'.holds.truncateAfter_spec
    cases deleted.symm.trans cut
    cases went
    refine ⟨state.position, behind', final, [], ?_, (fun some => absurd rfl some), rfl, rfl,
      above.trans below, inside, rfl, (fun none => nomatch none), fun _ => Or.inl further⟩
    exact ⟨held, spaced, tracks'.cut holds,
      fun _ => ⟨rfl, rfl, fun _ => suits.last tracks'.good_here tracks'.reached_here (by omega)⟩,
      fun none => (patterned none).elim⟩
  · rcases halted with ⟨late, behind', final, ahead', tracks', old', above, below⟩ |
      ⟨met, ⟨behind', final, tracks', isLast, above⟩, value, isReached, kept, behindStart, passed⟩
    · cases late
      cases went
      refine ⟨state.position, behind', final, ahead', ?_, old', rfl, rfl, above.trans below, inside, rfl,
        fun _ => below, (fun none => nomatch none)⟩
      exact ⟨held, spaced, tracks', (fun none => nomatch none), fun none => (patterned none).elim⟩
    · cases met
      cases went
      refine ⟨state.position, behind', final, [], ?_, (fun some => absurd rfl some), rfl, rfl,
        behindStart.le.trans passed, inside, rfl, (fun none => nomatch none),
        fun _ => Or.inr ⟨value, isReached, kept, behindStart, passed⟩⟩
      exact ⟨held, spaced, tracks'.cut tracks'.holds, fun _ => ⟨rfl, rfl, fun _ => isLast⟩,
        fun none => (patterned none).elim⟩

end Highlighter

/-! ### Breaks on either side of an edit -/

namespace Break

/-- A break that moves along with an edit. -/
def carried (change : Change) (value : Break) : Break :=
  { value with position := change.carry value.position }

/-- An entry whose break moves along with an edit. -/
def carryEntry (change : Change) (entry : Entry) : Entry := (entry.1, entry.2.carried change)

/-- Shifting a break behind an edit is carrying it along. -/
theorem moveEntry_eq {entry : Entry} (behind : change.oldEnd ≤ entry.2.position) :
    BreakIndex.moveEntry change.delta entry = carryEntry change entry := by
  unfold BreakIndex.moveEntry carryEntry carried Change.carry
  rw [if_pos behind]

variable (edits : Text.Edits text edited change)
include edits

theorem good_before {value : Break} (good : value.spot.Good grammar text)
    (clear : value.position ≤ change.start) : value.spot.Good grammar edited :=
  ⟨(edits.front.isBoundary_eq clear).symm.trans good.boundary, good.known⟩

theorem good_carried {value : Break} (good : value.spot.Good grammar text)
    (clear : change.oldEnd ≤ value.position) : (value.carried change).spot.Good grammar edited := by
  have inside : value.position ≤ text.size := good.position_le
  have moved := edits.carry_behind clear inside
  have newEnd := edits.newEnd
  obtain ⟨index, position_eq⟩ := Nat.exists_eq_add_of_le clear
  refine ⟨?_, good.known⟩
  show edited.isBoundary (change.carry value.position) = true
  have boundary : text.isBoundary value.position = true := good.boundary
  rw [show change.carry value.position = change.newEnd + index by omega,
    ← edits.back.isBoundary_eq, ← position_eq]
  exact boundary

end Break

/-! ### Old breaks -/

/-- A relation that the entries in front have with all others says nothing about them. -/
theorem isChain_of_front {relation : Entry → Entry → Prop} {front back : List Entry}
    (always : ∀ entry ∈ front, ∀ next, relation entry next) (chain : back.IsChain relation) :
    (front ++ back).IsChain relation := by
  induction front with
  | nil => exact chain
  | cons entry front ih =>
    rw [List.cons_append, List.isChain_cons]
    exact ⟨fun next _ => always entry List.mem_cons_self next,
      ih fun other member => always other (List.mem_cons_of_mem entry member)⟩

namespace Pass

/-- Of two markers the later one counts. -/
theorem isRestarted_later {first second : Option Nat} {position : Nat} :
    isRestarted (Highlighter.later first second) position = true ↔
      isRestarted first position = true ∧ isRestarted second position = true := by
  cases first <;> cases second <;> simp [Highlighter.later, isRestarted]

/-- Behind an edit a marker that moves along marks the same breaks. -/
theorem isRestarted_of_carry (edits : Text.Edits text edited change) {restartEnd : Option Nat}
    {position : Nat} (behind : change.oldEnd ≤ position) (inside : position ≤ text.size)
    (restarted : isRestarted (restartEnd.map change.carry) (change.carry position) = true) :
    isRestarted restartEnd position = true := by
  cases restartEnd with
  | none => rfl
  | some stop =>
    simp only [Option.map_some, isRestarted, decide_eq_true_eq] at restarted ⊢
    by_contra beyond
    have := edits.carry_lt_carry behind inside (not_le.mp beyond)
    omega

end Pass

namespace Highlighter

variable {demands demandsAfter : Demands} {highlighter after : Highlighter}
  {behind ahead : List Entry} {reached : Break}

/-- An old break may be relied on to lead to the next. -/
def Relied (highlighter : Highlighter) (reached position : Nat) : Prop :=
  highlighter.needsProcessing = false ∨
    reached < position ∧ Pass.isRestarted highlighter.restartEnd position = true

namespace Charted

variable (charted : Charted text demands highlighter behind reached ahead)
include charted

/-- Every break up to the frontier is as it should be. -/
theorem reached_of_le {entry : Entry}
    (member : entry ∈ behind ++ (highlighter.frontier, reached) :: ahead)
    (inFront : entry.2.position ≤ reached.position) : demands.reached entry.2 := by
  rw [List.append_cons] at member
  rcases List.mem_append.mp member with upTo | inAhead
  · exact charted.tracks.upTo entry upTo
  · exact absurd (charted.tracks.ahead_lt entry inAhead) (not_lt.mpr inFront)

/-- Where nothing is left to process every break is as it should be. -/
theorem reached_of_idle (idle : highlighter.needsProcessing = false) :
    ∀ entry ∈ behind ++ (highlighter.frontier, reached) :: ahead, demands.reached entry.2 := by
  obtain ⟨-, rfl, -⟩ := charted.idle idle
  exact charted.tracks.upTo

/-- Every break up to the frontier is joined to the one before. -/
theorem joined_of_le :
    (behind ++ (highlighter.frontier, reached) :: ahead).IsChain fun entry next =>
      next.2.position ≤ reached.position → demands.joined entry.2 next.2 := by
  have sorted := charted.tracks.sorted
  have beyond : ∀ next ∈ ahead, ¬ next.2.position ≤ reached.position :=
    fun next member => not_le.mpr (charted.tracks.ahead_lt next member)
  rw [BreakIndex.Sorted, List.append_cons, List.pairwise_append] at sorted
  rw [List.append_cons]
  refine List.IsChain.append ?_ ?_ ?_
  · exact charted.tracks.passed.imp fun _ _ joins _ => joins
  · refine sorted.2.1.isChain.imp_of_mem_imp ?_
    intro entry next _ member _ inFront
    exact (beyond next member inFront).elim
  · intro entry _ next atHead inFront
    exact (beyond next (List.mem_of_mem_head? atHead) inFront).elim

/-- **A break that may be relied on is joined to the next.** -/
theorem relied :
    (behind ++ (highlighter.frontier, reached) :: ahead).IsChain fun entry next =>
      highlighter.Relied reached.position entry.2.position → demands.joined entry.2 next.2 := by
  cases pending : highlighter.needsProcessing with
  | false =>
    obtain ⟨-, rfl, -⟩ := charted.idle pending
    exact charted.tracks.passed.imp fun _ _ joins _ => joins
  | true =>
    have notIdle : highlighter.needsProcessing ≠ false := by
      rw [pending]
      exact Bool.true_eq_false_eq_False
    rw [List.append_cons]
    refine isChain_of_front ?_ (charted.tracks.linked.imp fun entry next joins relied =>
      joins (relied.resolve_left notIdle).2)
    intro entry member next relied
    have beyond := (relied.resolve_left notIdle).1
    rcases List.mem_append.mp member with inBehind | here
    · exact absurd (charted.tracks.sorted.before entry inBehind) (not_lt.mpr beyond.le)
    · rw [List.mem_singleton.mp here] at beyond
      exact absurd beyond (lt_irrefl _)

/-- A break that may be relied on has what is kept of such breaks, or nothing is left to process. -/
theorem kept_of_relied {entry : Entry}
    (member : entry ∈ behind ++ (highlighter.frontier, reached) :: ahead)
    (relied : highlighter.Relied reached.position entry.2.position) :
    highlighter.needsProcessing = false ∧ demands.reached entry.2 ∨ demands.kept entry.2 := by
  rcases relied with idle | ⟨beyond, restarted⟩
  · exact Or.inl ⟨idle, charted.reached_of_idle idle entry member⟩
  · rcases List.mem_append.mp member with inBehind | later
    · exact absurd (charted.tracks.sorted.before entry inBehind) (not_lt.mpr beyond.le)
    · rcases List.mem_cons.mp later with rfl | inAhead
      · exact absurd beyond (lt_irrefl _)
      · exact Or.inr (charted.tracks.kept entry inAhead restarted)

/-- The last break may be the last, if it may be relied on. -/
theorem last_of_relied (patterned : highlighter.grammar.hasPatterns = true) {entry : Entry}
    (atEnd : entry ∈ (behind ++ (highlighter.frontier, reached) :: ahead).getLast?)
    (relied : highlighter.Relied reached.position entry.2.position) : demands.last entry.2 := by
  rcases List.eq_nil_or_concat' ahead with none | ⟨front, final, some⟩
  · rw [none, List.getLast?_concat] at atEnd
    cases atEnd
    rcases relied with idle | ⟨beyond, -⟩
    · exact (charted.idle idle).2.2 patterned
    · exact absurd beyond (lt_irrefl _)
  · have last : entry ∈ ahead.getLast? := by
      rw [some, List.append_cons, ← List.append_assoc, List.getLast?_concat] at atEnd
      rw [some, List.getLast?_concat]
      exact atEnd
    rcases relied with idle | ⟨beyond, restarted⟩
    · rw [(charted.idle idle).2.1] at last
      cases last
    · exact charted.tracks.last entry last restarted

end Charted

/-! ### Breaks that an edit keeps -/

/-- An edit leaves enough of what is asked of breaks that no regex sees it from. -/
structure Survives (text edited : Text) (demands demandsAfter : Demands) (highlighter : Highlighter)
    (change : Change) : Prop where
  first : demandsAfter.reached Break.first
  reached : ∀ {value}, value.spot.Good highlighter.grammar text → demands.reached value →
    value.position + (highlighter.grammar.maxExtend + 1) ≤ change.start → demandsAfter.reached value
  passed : ∀ {value other}, demandsAfter.reached value → demandsAfter.reached other →
    value.position < other.position → demands.joined value other → demandsAfter.joined value other
  linked : ∀ {value other}, value.spot.Good highlighter.grammar text →
    other.spot.Good highlighter.grammar text → value.position < other.position →
    change.oldEnd + (highlighter.grammar.maxExtend + 1) < value.position →
      demands.joined value other → demandsAfter.joined (value.carried change) (other.carried change)
  kept : ∀ {value}, value.spot.Good highlighter.grammar text →
    change.oldEnd + (highlighter.grammar.maxExtend + 1) < value.position →
      highlighter.needsProcessing = false ∧ demands.reached value ∨ demands.kept value →
        demandsAfter.kept (value.carried change)
  last : ∀ {value}, value.spot.Good highlighter.grammar text →
    change.oldEnd + (highlighter.grammar.maxExtend + 1) < value.position →
      demands.last value → demandsAfter.last (value.carried change)

namespace Edited

variable {front gone rest : List Entry} {restart : BreakId} {value : Break}
  (charted : Charted text demands highlighter behind reached ahead)
  (split : behind ++ (highlighter.frontier, reached) :: ahead =
    front ++ (restart, value) :: (gone ++ rest))
  (made : highlighter.Edited change after reached front restart value rest)
  (edits : Text.Edits text edited change)
include charted split made

theorem first_of_nil (none : front = []) : value = Break.first := by
  have starts := charted.tracks.starts
  rw [split, none] at starts
  cases starts
  rfl

theorem value_le : value.position ≤ change.start :=
  made.value_le_start (split ▸ charted.tracks.starts)

omit charted made in
theorem mem_of_rest {entry : Entry} (member : entry ∈ rest) :
    entry ∈ behind ++ (highlighter.frontier, reached) :: ahead := by
  rw [split]
  simp [member]

omit charted made in
theorem mem_of_front {entry : Entry} (member : entry ∈ front ++ [(restart, value)]) :
    entry ∈ behind ++ (highlighter.frontier, reached) :: ahead := by
  rw [split, List.append_cons]
  exact List.mem_append_left _ member

omit made in
theorem good_rest {entry : Entry} (member : entry ∈ rest) :
    entry.2.spot.Good highlighter.grammar text :=
  charted.tracks.good entry (mem_of_rest split member)

omit made in
/-- Breaks that an edit keeps are behind the restart. -/
theorem value_lt {entry : Entry} (member : entry ∈ rest) : value.position < entry.2.position := by
  have sorted := charted.tracks.sorted
  rw [split] at sorted
  exact sorted.behind entry (List.mem_append_right gone member)

omit made in
/-- Breaks up to the restart are not behind it. -/
theorem le_value {entry : Entry} (member : entry ∈ front ++ [(restart, value)]) :
    entry.2.position ≤ value.position := by
  have sorted := charted.tracks.sorted
  rw [split] at sorted
  rcases List.mem_append.mp member with before | here
  · exact (sorted.before entry before).le
  · rw [List.mem_singleton.mp here]

omit charted split in
/-- Breaks that an edit keeps are carried along. -/
theorem moved_eq : rest.map (BreakIndex.moveEntry change.delta) =
    rest.map (Break.carryEntry change) := by
  refine List.map_congr_left fun entry member => Break.moveEntry_eq ?_
  have beyond := made.behind entry member
  omega

omit made in
/-- Without patterns there is only the first break. -/
theorem alone (plain : highlighter.grammar.hasPatterns = false) :
    front = [] ∧ value = reached ∧ rest = [] ∧ highlighter.needsProcessing = false ∧
      highlighter.restartEnd = none := by
  obtain ⟨idle, rfl⟩ := charted.plain plain
  obtain ⟨unmarked, rfl, -⟩ := charted.idle idle
  cases front with
  | nil =>
    rw [List.nil_append, List.nil_append, List.cons.injEq, Prod.mk.injEq] at split
    have gone := List.append_eq_nil_iff.mp split.2.symm
    exact ⟨rfl, split.1.2.symm, gone.2, idle, unmarked⟩
  | cons entry front => simp at split

include edits

/-- Breaks up to the restart are at boundaries of the new text. -/
theorem good_kept {entry : Entry} (member : entry ∈ front ++ [(restart, value)]) :
    entry.2.spot.Good highlighter.grammar edited :=
  Break.good_before edits (charted.tracks.good entry (mem_of_front split member))
    ((le_value charted split member).trans (made.value_le charted split))

/-- Breaks that an edit keeps are at boundaries of the new text. -/
theorem good_moved : ∀ entry ∈ rest.map (Break.carryEntry change),
    entry.2.spot.Good highlighter.grammar edited := by
  intro other member
  obtain ⟨entry, inside, rfl⟩ := List.mem_map.mp member
  have beyond := made.behind entry inside
  exact Break.good_carried edits (good_rest charted split inside) (by omega)

/-- All breaks of the new text are at boundaries. -/
theorem good_all : ∀ entry ∈ front ++ (restart, value) :: rest.map (Break.carryEntry change),
    entry.2.spot.Good highlighter.grammar edited := by
  intro entry member
  rw [List.append_cons] at member
  rcases List.mem_append.mp member with kept | moved
  · exact made.good_kept charted split edits kept
  · exact made.good_moved charted split edits entry moved

/-- A break that may be relied on after an edit could be relied on before. -/
theorem relied_of_restarted {entry : Entry} (member : entry ∈ rest)
    (restarted : Pass.isRestarted after.restartEnd (change.carry entry.2.position) = true) :
    highlighter.Relied reached.position entry.2.position := by
  have beyond := made.behind entry member
  have inside : entry.2.position ≤ text.size := (good_rest charted split member).position_le
  cases pending : highlighter.needsProcessing with
  | false => exact Or.inl pending
  | true =>
    rcases made.rewound with ⟨-, -, marker⟩ | ⟨behindRestart, -, marker⟩
    · rw [marker, Pass.isRestarted_later] at restarted
      obtain ⟨old, new⟩ := restarted
      refine Or.inr ⟨?_, Pass.isRestarted_of_carry edits (by omega) inside old⟩
      rw [markerAt, if_pos pending] at new
      simp only [Pass.isRestarted, decide_eq_true_eq] at new
      by_contra inFront
      rcases (not_lt.mp inFront).lt_or_eq with ordered | same
      · have := edits.carry_lt_carry (by omega) inside ordered
        omega
      · rw [same] at new
        omega
    · rw [marker, Pass.isRestarted_later] at restarted
      exact Or.inr ⟨behindRestart.trans (value_lt charted split member),
        Pass.isRestarted_of_carry edits (by omega) inside restarted.1⟩

omit edits in
/-- If the frontier stays, none of the breaks up to the restart may be relied on. -/
theorem not_restarted (further : reached.position < value.position) {entry : Entry}
    (member : entry ∈ front ++ [(restart, value)]) :
    Pass.isRestarted after.restartEnd entry.2.position = false := by
  have marker : after.restartEnd =
      later (highlighter.restartEnd.map change.carry) (some (value.position + 1)) := by
    rcases made.rewound with ⟨inFront, -, -⟩ | ⟨-, -, marker⟩
    · exact absurd further (not_lt.mpr inFront)
    · exact marker
  have before := le_value charted split member
  rw [← Bool.not_eq_true, marker, Pass.isRestarted_later]
  rintro ⟨-, beyond⟩
  simp only [Pass.isRestarted, decide_eq_true_eq] at beyond
  omega

/-- The breaks after an edit are in order. -/
theorem sorted : BreakIndex.Sorted
    (front ++ (restart, value) :: rest.map (Break.carryEntry change)) := by
  have sorted := charted.tracks.sorted
  rw [split, BreakIndex.Sorted, List.pairwise_append] at sorted
  obtain ⟨inFront, later, across⟩ := sorted
  have inRest := (List.pairwise_append.mp (List.pairwise_cons.mp later).2).2.1
  have start := made.value_le charted split
  have beyond : ∀ entry ∈ rest, value.position < change.carry entry.2.position := by
    intro entry member
    have behind := made.behind entry member
    have moved := edits.carry_behind (show change.oldEnd ≤ entry.2.position by omega)
      (good_rest charted split member).position_le
    have newEnd := edits.newEnd
    omega
  refine List.pairwise_append.mpr ⟨inFront, List.pairwise_cons.mpr ⟨?_, ?_⟩, ?_⟩
  · intro other member
    obtain ⟨entry, inside, rfl⟩ := List.mem_map.mp member
    exact beyond entry inside
  · refine List.pairwise_map.mpr (inRest.imp_of_mem fun {entry next} member _ ordered => ?_)
    have behind := made.behind entry member
    exact edits.carry_lt_carry (by omega) (good_rest charted split member).position_le ordered
  · intro entry member other memberOther
    have before := across entry member (restart, value) List.mem_cons_self
    rcases List.mem_cons.mp memberOther with rfl | moved
    · exact before
    · obtain ⟨next, inside, rfl⟩ := List.mem_map.mp moved
      exact before.trans (beyond next inside)

section Survives

variable (survives : Survives text edited demands demandsAfter highlighter change)
include survives

omit edits in
/-- The breaks up to the restart that are not behind the frontier are as they should be. -/
theorem reached_kept {entry : Entry} (member : entry ∈ front ++ [(restart, value)])
    (inFront : entry.2.position ≤ reached.position) : demandsAfter.reached entry.2 := by
  rcases made.clear with none | clear
  · subst none
    rw [List.mem_singleton.mp member]
    show demandsAfter.reached value
    rw [made.first_of_nil charted split rfl]
    exact survives.first
  · have inside := mem_of_front split member
    have before := le_value charted split member
    exact survives.reached (charted.tracks.good entry inside) (charted.reached_of_le inside inFront)
      (by omega)

omit edits in
/-- The breaks up to the restart that are not behind the frontier are joined. -/
theorem passed_kept {front' : List Entry} (starts : front' <+: front ++ [(restart, value)])
    (inFront : ∀ entry ∈ front', entry.2.position ≤ reached.position) :
    front'.IsChain fun entry next => demandsAfter.joined entry.2 next.2 := by
  obtain ⟨middle, whole⟩ := starts
  have chain := charted.joined_of_le
  have sorted := charted.tracks.sorted.isChain
  rw [split, List.append_cons, ← whole, List.append_assoc] at chain sorted
  have both := List.isChain_iff_getElem.mp chain.left_of_append
  have isReached : ∀ entry ∈ front', demandsAfter.reached entry.2 := fun entry member =>
    made.reached_kept charted split survives (whole ▸ List.mem_append_left _ member)
      (inFront entry member)
  refine List.isChain_iff_getElem.mpr fun index inside => ?_
  have ordered := List.isChain_iff_getElem.mp sorted.left_of_append index inside
  exact survives.passed (isReached _ (List.getElem_mem _)) (isReached _ (List.getElem_mem _)) ordered
    (both index inside (inFront _ (List.getElem_mem _)))

/-- A break that is kept and may be relied on is joined to the next. -/
theorem linked :
    (rest.map (Break.carryEntry change)).IsChain fun entry next =>
      Pass.isRestarted after.restartEnd entry.2.position = true →
        demandsAfter.joined entry.2 next.2 := by
  have chain := charted.relied
  have sorted := charted.tracks.sorted.isChain
  rw [split, ← List.cons_append, ← List.append_assoc] at chain sorted
  have both := List.isChain_iff_getElem.mp chain.right_of_append
  rw [List.isChain_map]
  refine List.isChain_iff_getElem.mpr fun index inside restarted => ?_
  have ordered := List.isChain_iff_getElem.mp sorted.right_of_append index inside
  have member : rest[index] ∈ rest := List.getElem_mem _
  have relied := made.relied_of_restarted charted split edits member restarted
  exact survives.linked (good_rest charted split member)
    (good_rest charted split (List.getElem_mem _)) ordered (made.behind _ member)
    (both index inside relied)

theorem kept_moved : ∀ entry ∈ rest.map (Break.carryEntry change),
    Pass.isRestarted after.restartEnd entry.2.position = true → demandsAfter.kept entry.2 := by
  intro other member restarted
  obtain ⟨entry, inside, rfl⟩ := List.mem_map.mp member
  exact survives.kept (good_rest charted split inside) (made.behind entry inside)
    (charted.kept_of_relied (mem_of_rest split inside)
      (made.relied_of_restarted charted split edits inside restarted))

theorem last_moved : ∀ entry ∈ (rest.map (Break.carryEntry change)).getLast?,
    Pass.isRestarted after.restartEnd entry.2.position = true → demandsAfter.last entry.2 := by
  intro other atEnd restarted
  rw [List.getLast?_map] at atEnd
  obtain ⟨entry, ends, rfl⟩ := Option.mem_map.mp atEnd
  have inside := List.mem_of_mem_getLast? ends
  have patterned : highlighter.grammar.hasPatterns = true := by
    refine Bool.not_eq_false _ ▸ fun plain => ?_
    rw [(alone charted split plain).2.2.1] at inside
    cases inside
  have last : entry ∈ (behind ++ (highlighter.frontier, reached) :: ahead).getLast? := by
    rw [split, ← List.cons_append, ← List.append_assoc, List.getLast?_append, Option.mem_def.mp ends]
    rfl
  exact survives.last (good_rest charted split inside) (made.behind entry inside)
    (charted.last_of_relied patterned last
      (made.relied_of_restarted charted split edits inside restarted))

/-- The breaks after an edit that takes the frontier back to the restart. -/
theorem tracks_of_le (inFront : value.position ≤ reached.position) :
    Trail highlighter.grammar edited demandsAfter after.breaks restart after.restartEnd front value
      (rest.map (Break.carryEntry change)) := by
  have holds := made.holds
  have starts := charted.tracks.starts
  rw [made.moved_eq] at holds
  rw [split] at starts
  have upTo : ∀ entry ∈ front ++ [(restart, value)], entry.2.position ≤ reached.position :=
    fun entry member => (le_value charted split member).trans inFront
  refine ⟨holds, ?_, made.sorted charted split edits, made.good_all charted split edits,
    fun entry member => made.reached_kept charted split survives member (upTo entry member),
    made.passed_kept charted split survives (List.prefix_refl _) upTo,
    made.linked charted split edits survives, made.kept_moved charted split edits survives,
    made.last_moved charted split edits survives⟩
  rw [← starts]
  cases front <;> rfl

/-- The breaks after an edit behind the frontier, which stays. None of the old ones up to the restart
may be relied on. -/
theorem tracks_of_lt (further : reached.position < value.position) :
    ∃ ahead, Trail highlighter.grammar edited demandsAfter after.breaks highlighter.frontier
      after.restartEnd behind reached ahead := by
  have holds := made.holds
  have starts := charted.tracks.starts
  have sorted := made.sorted charted split edits
  have good := made.good_all charted split edits
  have linked := made.linked charted split edits survives
  rw [made.moved_eq] at holds
  obtain ⟨middle, rfl, rfl⟩ :=
    (split ▸ charted.tracks.sorted.ordered : BreakIndex.Ordered _).exists_middle split further
  have vacuous : ∀ entry ∈ middle ++ [(restart, value)],
      Pass.isRestarted after.restartEnd entry.2.position = false := by
    intro entry member
    refine made.not_restarted charted split further ?_
    rw [List.append_assoc, List.cons_append]
    exact List.mem_append_right _ (List.mem_cons_of_mem _ member)
  have upTo : ∀ entry ∈ behind ++ [(highlighter.frontier, reached)],
      entry.2.position ≤ reached.position := by
    intro entry member
    rcases List.mem_append.mp member with inBehind | here
    · exact (charted.tracks.sorted.before entry inBehind).le
    · rw [List.mem_singleton.mp here]
  have starting : behind ++ [(highlighter.frontier, reached)] <+:
      (behind ++ (highlighter.frontier, reached) :: middle) ++ [(restart, value)] :=
    ⟨middle ++ [(restart, value)], by simp⟩
  have passed := made.passed_kept charted split survives starting upTo
  have reachedKept : ∀ entry ∈ behind ++ [(highlighter.frontier, reached)],
      demandsAfter.reached entry.2 := fun entry member =>
    made.reached_kept charted split survives (starting.subset member) (upTo entry member)
  rw [List.append_assoc, List.cons_append, List.append_cons middle] at holds sorted good
  refine ⟨(middle ++ [(restart, value)]) ++ rest.map (Break.carryEntry change), holds, ?_, sorted,
    good, reachedKept, passed, ?_, ?_, ?_⟩
  · rw [← starts]
    cases behind <;> rfl
  · refine isChain_of_front (fun entry member next restarted => ?_) linked
    rw [vacuous entry member] at restarted
    cases restarted
  · intro entry member restarted
    rcases List.mem_append.mp member with before | moved
    · rw [vacuous entry before] at restarted
      cases restarted
    · exact made.kept_moved charted split edits survives entry moved restarted
  · intro entry atEnd restarted
    rw [List.getLast?_append] at atEnd
    rcases Option.or_eq_some_iff.mp atEnd with moved | ⟨-, before⟩
    · exact made.last_moved charted split edits survives entry moved restarted
    · rw [vacuous entry (List.mem_of_mem_getLast? before)] at restarted
      cases restarted

end Survives

end Edited

/-! ### Edits -/

/-- What an edit has made of a highlighter with the frontier at `reached` when it restarts at `start`. -/
structure Restarted (edited : Text) (demands : Demands) (highlighter : Highlighter) (reached : Break)
    (change : Change) (after : Highlighter) (start : Nat) (behind : List Entry) (final : Break)
    (ahead : List Entry) : Prop where
  charted : Charted edited demands after behind final ahead
  grammar : after.grammar = highlighter.grammar
  config : after.config = highlighter.config
  needsProcessing : after.needsProcessing = highlighter.grammar.hasPatterns
  clear : start = 0 ∨ start + (highlighter.grammar.maxExtend + 1) ≤ change.start
  dirty : after.dirty =
    Span.add (highlighter.dirty.map (Span.carry change)) ⟨start, change.newEnd⟩
  position : final.position = min start reached.position
  plain : highlighter.grammar.hasPatterns = false → start = 0

/-- The restart is not behind the start of the edit. -/
theorem Restarted.start_le {start : Nat} {final : Break}
    (made : Restarted edited demandsAfter highlighter reached change after start behind final ahead) :
    start ≤ change.start := by
  rcases made.clear with none | clear
  · exact none.le.trans (Nat.zero_le _)
  · exact (Nat.le_add_right _ _).trans clear

/-- **After an edit the breaks are as they should be for the new text**, if it leaves enough of what was
asked of them. -/
theorem Charted.edit_spec (charted : Charted text demands highlighter behind reached ahead)
    (edits : Text.Edits text edited change) (heldEdited : edited.Held)
    (survives : Survives text edited demands demandsAfter highlighter change)
    (went : highlighter.edit change = .ok after) :
    ∃ start behind final ahead,
      Restarted edited demandsAfter highlighter reached change after start behind final ahead := by
  have small : ∀ entry ∈ behind ++ (highlighter.frontier, reached) :: ahead,
      entry.2.position ≤ maxSize := by
    intro entry member
    have inside : entry.2.position ≤ text.size := (charted.tracks.good entry member).position_le
    exact inside.trans charted.held.size_lt_maxSize.le
  obtain ⟨front, restart, value, gone, rest, split, made⟩ :=
    edited_of_edit charted.tracks.holds charted.tracks.sorted.ordered charted.tracks.starts small went
  have clear : value.position = 0 ∨
      value.position + (highlighter.grammar.maxExtend + 1) ≤ change.start := by
    refine made.clear.imp_left fun none => ?_
    rw [made.first_of_nil charted split none]
    rfl
  have atStart : highlighter.grammar.hasPatterns = false → value.position = 0 := by
    intro plain
    rw [made.first_of_nil charted split (Edited.alone charted split plain).1]
    rfl
  have spaced : 0 < after.config.spacing := made.config ▸ charted.spaced
  rcases made.rewound with ⟨inFront, frontier, marker⟩ | ⟨further, frontier, -⟩
  · have tracks := made.tracks_of_le charted split edits survives inFront
    rw [← made.grammar, ← frontier] at tracks
    refine ⟨value.position, front, value, _, ⟨heldEdited, spaced, tracks, ?_, ?_⟩,
      made.grammar, made.config, made.needsProcessing, clear, made.dirty, (min_eq_left inFront).symm,
      atStart⟩
    · intro idle
      rw [made.needsProcessing] at idle
      obtain ⟨-, -, rfl, idleBefore, unmarked⟩ := Edited.alone charted split idle
      rw [marker, unmarked, markerAt, idleBefore, made.grammar]
      exact ⟨rfl, rfl, fun patterned => nomatch patterned.symm.trans idle⟩
    · intro plain
      rw [made.grammar] at plain
      exact ⟨made.needsProcessing.trans plain, (Edited.alone charted split plain).1⟩
  · have patterned : highlighter.grammar.hasPatterns = true := by
      refine Bool.not_eq_false _ ▸ fun plain => ?_
      rw [(Edited.alone charted split plain).2.1] at further
      exact lt_irrefl _ further
    obtain ⟨rest, tracks⟩ := made.tracks_of_lt charted split edits survives further
    rw [← made.grammar, ← frontier] at tracks
    refine ⟨value.position, behind, reached, rest, ⟨heldEdited, spaced, tracks, ?_, ?_⟩,
      made.grammar, made.config, made.needsProcessing, clear, made.dirty,
      (min_eq_right further.le).symm, atStart⟩
    · intro idle
      cases (made.needsProcessing.trans patterned).symm.trans idle
    · intro plain
      rw [made.grammar, patterned] at plain
      cases plain

end Highlighter

end Highlight
