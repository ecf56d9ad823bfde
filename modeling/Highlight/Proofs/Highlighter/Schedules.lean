/-
**The first pass over a text leaves the same breaks, however its time is cut into slices.**

Each interruption moves the search windows, so that the scan reports other boundaries. The breaks are the
same all the same, since there is one place only for the next one:

* `prefix_or_prefix_of_chains`: two chains from one element are one, as far as both of them go;
* `Highlighter.FirstPass`: what a highlighter is like before its text is edited;
* `Highlighter.Stored.process`, `Highlighter.FirstPass.processAll`: slices of work leave it so;
* `Highlighter.Finished`: what the breaks of a finished first pass are, those up to the end of the text,
  or as many as there are numbers;
* `Highlighter.Finished.unique`: there is one way only to finish it;
* `Highlighter.breaks_eq_of_processAll`: **two schedules that finish the first pass leave the same breaks**.
-/

import Highlight.Proofs.Highlighter.Round
import Highlight.Proofs.Highlighter.Slots

namespace Highlight

open BreakIndex (Entry)

variable {grammar : Grammar} {config : Config} {text : Text}

/-! ### Chains that can be continued in one way -/

section Chains

variable {α : Type} {follows : α → α → Prop} {first : α} {rest others : List α}
  (unique : ∀ value next other, follows value next → follows value other → next = other)
include unique

/-- **Two chains from the same element are one, as far as both of them go**, if every element can be
followed by one other only. -/
theorem prefix_or_prefix_of_chains (chain : (first :: rest).IsChain follows)
    (chainToo : (first :: others).IsChain follows) : rest <+: others ∨ others <+: rest := by
  induction rest generalizing first others with
  | nil => exact Or.inl List.nil_prefix
  | cons next rest ih =>
    cases others with
    | nil => exact Or.inr List.nil_prefix
    | cons other others =>
      rw [List.isChain_cons_cons] at chain chainToo
      obtain rfl := unique first next other chain.1 chainToo.1
      exact (ih chain.2 chainToo.2).imp (List.prefix_cons_inj next).mpr (List.prefix_cons_inj next).mpr

omit unique in
/-- A chain whose last element is followed by nothing is no part of a longer one. -/
theorem eq_of_prefix_of_ended (ends : ∀ value ∈ (first :: rest).getLast?, ∀ next, ¬ follows value next)
    (chain : (first :: others).IsChain follows) (front : rest <+: others) : rest = others := by
  obtain ⟨back, rfl⟩ := front
  cases back with
  | nil => exact (List.append_nil rest).symm
  | cons next back =>
    rw [← List.cons_append, List.isChain_append] at chain
    obtain ⟨value, atEnd⟩ : ∃ value, value ∈ (first :: rest).getLast? :=
      ⟨_, List.getLast?_eq_some_getLast (List.cons_ne_nil _ _)⟩
    exact absurd (chain.2.2 value atEnd next rfl) (ends value atEnd next)

end Chains

namespace Highlighter

variable {highlighter after : Highlighter}

/-- The breaks that have been stored so far follow each other, or there was no number for one of them. -/
def Stored (text : Text) (highlighter : Highlighter) : Prop :=
  (Pass.Packed ⟨highlighter.breaks, highlighter.frontier, highlighter.restartEnd, 0, none⟩ ∧
      ∃ behind reached, Charted text
        (Break.follows highlighter.grammar text highlighter.config.spacing) highlighter behind reached []) ∨
    ∃ rest, Pass.Round highlighter.grammar text highlighter.config.spacing highlighter.breaks
      highlighter.frontier highlighter.restartEnd rest

/-- The text has not been edited since the highlighter was made. -/
structure FirstPass (grammar : Grammar) (config : Config) (text : Text) (highlighter : Highlighter) :
    Prop where
  sameGrammar : highlighter.grammar = grammar
  sameConfig : highlighter.config = config
  stored : highlighter.Stored text

theorem firstPass_ofSize (grammar : Grammar) (held : text.Held) (spaced : 0 < config.spacing) :
    FirstPass grammar config text (ofSize grammar config text.size) := by
  have one : 1 ≤ BreakIndex.idRange := by decide
  exact ⟨rfl, rfl, Or.inl ⟨⟨one, rfl, rfl⟩, [], Break.first,
    charted_ofSize grammar held spaced Break.visited_first⟩⟩

section Lawful

variable (wellFormed : highlighter.grammar.WellFormed) (isLocal : highlighter.grammar.Local)
  (held : text.Held) (spaced : 0 < highlighter.config.spacing)
include wellFormed isLocal held spaced

/-- A scan may begin at the frontier. -/
theorem Stored.going {value : Break} (stored : highlighter.Stored text)
    (found : highlighter.breaks.get highlighter.frontier = .ok value) :
    (ScanState.ofBreak value).Good highlighter.grammar text ∧
      Pass.Going highlighter.grammar text highlighter.config.spacing value.position
        ⟨highlighter.breaks, highlighter.frontier, highlighter.restartEnd, 0, none⟩
        (ScanState.ofBreak value) := by
  have visited : value.Visited highlighter.grammar text := by
    rcases stored with ⟨-, behind, reached, charted⟩ | ⟨rest, round⟩
    · cases charted.tracks.holds.get_eq.symm.trans found
      exact charted.tracks.reached_here
    · rw [round.frontier] at found
      cases round.ring.get_first.symm.trans found
      exact Break.visited_first
  have good := visited.good wellFormed isLocal held
  refine ⟨ScanState.good_startingAt good.boundary good.known, rfl, visited, ?_⟩
  rcases stored with ⟨packed, behind, reached, charted⟩ | ⟨rest, round⟩
  · cases charted.tracks.holds.get_eq.symm.trans found
    exact Or.inl ⟨packed, behind, value, [], charted.tracks, fun some => absurd rfl some, le_rfl, le_rfl,
      Nat.lt_add_of_pos_right spaced⟩
  · rw [round.frontier] at found
    cases round.ring.get_first.symm.trans found
    exact Or.inr ⟨rest, round, Or.inl spaced⟩

/-- **A slice of work stores more breaks that follow**, or there is no number for one of them. -/
theorem Stored.process (stored : highlighter.Stored text) {deadline : Deadline} {scanned : Nat}
    (went : highlighter.process text deadline = .ok (scanned, after)) : after.Stored text := by
  cases pending : highlighter.needsProcessing with
  | false =>
    rw [process_of_idle pending] at went
    cases went
    exact stored
  | true =>
    rcases exists_run_of_process went with ⟨-, rfl⟩ | ⟨sameGrammar, sameConfig, unit, value, pass, state,
      ending, -, found, ran, sameFrontier, unmarked, left⟩
    · exact stored
    have suits := Break.suits_follows wellFormed isLocal held highlighter.config.spacing
    obtain ⟨good, going⟩ := stored.going wellFormed isLocal held spaced found
    have ends := (Scanner.ofUnit highlighter.grammar unit).run_ends suits.makes held
      (Pass.sink_keeps_first wellFormed isLocal held spaced
        (show (PassPlan.mk text highlighter.config.spacing deadline).text = text from rfl))
      text.size (fun _ => Or.inr trivial) (Scanner.unit_pos _ _) good going
    rw [ran] at ends
    have made : Pass.Packed pass ∧ (pass.interrupt = none →
        pass.breaks.truncateAfter pass.frontier = .ok pass.breaks) ∨
          ∃ rest, Pass.Round highlighter.grammar text highlighter.config.spacing pass.breaks
            pass.frontier pass.restartEnd rest := by
      rcases ends.2 with ⟨going, -⟩ | ⟨finished, -⟩
      · refine going.breaks.imp (And.imp_right fun trails _ => ?_) fun ⟨rest, round, _⟩ => ⟨rest, round⟩
        obtain ⟨behind, reached, ahead, trail, old, -⟩ := trails
        obtain rfl : ahead = [] := not_not.mp old
        exact trail.holds.truncateAfter_last
      · exact finished.breaks.imp_left fun packed => ⟨packed, fun none => absurd none finished.ended⟩
    rcases made with ⟨packed, last⟩ | ⟨rest, round⟩
    · have sameBreaks : after.breaks = pass.breaks := by
        rcases left with ⟨same, -⟩ | ⟨running, truncated⟩
        · exact same
        · exact Except.ok.inj (truncated.symm.trans (last running))
      have packedAfter : Pass.Packed ⟨after.breaks, after.frontier, after.restartEnd, 0, none⟩ :=
        ⟨sameBreaks ▸ packed.numbered, sameBreaks ▸ packed.free, unmarked packed.restartEnd⟩
      rcases stored with ⟨-, behind, reached, charted⟩ | ⟨rest, round⟩
      · obtain ⟨stop, front, final, back, worked⟩ :=
          charted.process_spec suits (fun some => absurd rfl some) pending went packedAfter.numbered
        obtain rfl : back = [] := not_not.mp worked.old
        have charted := worked.charted
        rw [← sameGrammar, ← sameConfig] at charted
        exact Or.inl ⟨packedAfter, front, final, charted⟩
      · -- The slot that made the breaks go round is never given back.
        have slots := (slots_le_of_process went).trans packedAfter.numbered
        rw [round.slots] at slots
        exact absurd slots (Nat.not_succ_le_self _)
    · -- Who goes round cannot delete what is behind the first break.
      refine Or.inr ⟨rest, ?_⟩
      rcases left with ⟨sameBreaks, -⟩ | ⟨-, truncated⟩
      · rw [sameGrammar, sameConfig, sameBreaks, sameFrontier, unmarked round.restartEnd]
        exact round.restartEnd ▸ round
      · rw [round.frontier] at truncated
        exact absurd truncated round.ring.truncateAfter_ne_ok

end Lawful

section Lawful

variable (wellFormed : grammar.WellFormed) (isLocal : grammar.Local) (held : text.Held)
  (spaced : 0 < config.spacing)
include wellFormed isLocal held spaced

theorem FirstPass.process (firstPass : FirstPass grammar config text highlighter) {deadline : Deadline}
    {scanned : Nat} (went : highlighter.process text deadline = .ok (scanned, after)) :
    FirstPass grammar config text after := by
  obtain ⟨rfl, rfl, stored⟩ := firstPass
  have storedAfter := stored.process wellFormed isLocal held spaced went
  rcases exists_run_of_process went with ⟨-, rfl⟩ | ⟨sameGrammar, sameConfig, -⟩
  · exact ⟨rfl, rfl, stored⟩
  · exact ⟨sameGrammar, sameConfig, storedAfter⟩

/-- **All slices of work are parts of the first pass.** -/
theorem FirstPass.processAll {schedule : List Deadline}
    (firstPass : FirstPass grammar config text highlighter)
    (went : processAll text schedule highlighter = .ok after) : FirstPass grammar config text after := by
  induction schedule generalizing highlighter with
  | nil =>
    cases went
    exact firstPass
  | cons deadline rest ih =>
    obtain ⟨⟨scanned, middle⟩, worked, went⟩ := Fault.bind_eq_ok.mp went
    exact ih (firstPass.process wellFormed isLocal held spaced worked) went

end Lawful

/-! ### Finished first passes -/

/-- The breaks of a finished first pass. They follow each other up to the end of the text, or as long as
there is a number for the next one, and who lists them then comes to the first one again. -/
inductive Finished (grammar : Grammar) (text : Text) (spacing : Nat) (rest : List Break) :
    List Break → Prop
  | ended (few : rest.length < BreakIndex.idRange)
      (last : ∀ value ∈ (Break.first :: rest).getLast?, text.size < value.position + spacing) :
      Finished grammar text spacing rest (Break.first :: rest)
  | full (all : rest.length + 1 = BreakIndex.idRange) (next : Break)
      (more : (Break.first :: (rest ++ [next])).IsChain (Break.Follows grammar text spacing)) :
      Finished grammar text spacing rest (Break.first :: rest ++ [Break.first])

theorem FirstPass.finished (firstPass : FirstPass grammar config text highlighter)
    (idle : highlighter.needsProcessing = false) (patterned : grammar.hasPatterns = true) :
    ∃ rest, (Break.first :: rest).IsChain (Break.Follows grammar text config.spacing) ∧
      Finished grammar text config.spacing rest (highlighter.breaks.toList.map Prod.snd) := by
  obtain ⟨rfl, rfl, ⟨packed, behind, reached, charted⟩ | ⟨rest, round⟩⟩ := firstPass
  · have list := congrArg (List.map Prod.snd) charted.tracks.holds.toList_eq
    have starts := congrArg (Option.map Prod.snd) charted.tracks.starts
    have chain : ((behind ++ [(highlighter.frontier, reached)]).map Prod.snd).IsChain
        (Break.Follows highlighter.grammar text highlighter.config.spacing) :=
      (List.isChain_map _).mpr charted.tracks.passed
    have slots := charted.tracks.holds.length_le.trans packed.numbered
    rw [← List.length_map Prod.snd, ← list] at slots
    rw [← List.head?_map, ← list] at starts
    rw [← list] at chain
    obtain ⟨rest, breaks⟩ := List.head?_eq_some_iff.mp starts
    rw [breaks] at slots chain
    refine ⟨rest, chain, breaks ▸ .ended slots fun value atEnd => ?_⟩
    rw [← breaks, list, List.map_append, List.map_singleton, List.getLast?_concat] at atEnd
    cases atEnd
    exact (charted.idle idle).2.2 patterned
  · obtain ⟨final, next, atEnd, follows⟩ := round.more
    have all := round.full
    have list := congrArg (List.map Prod.snd) (round.ring.toList_eq (by rw [round.slots]; omega))
    rw [List.map_append, List.map_cons] at list
    refine ⟨rest.map Prod.snd, round.chain, list ▸ .full ((List.length_map _).symm ▸ all) next ?_⟩
    rw [← List.cons_append]
    refine List.isChain_append.mpr ⟨round.chain, .singleton _, fun value isLast other atHead => ?_⟩
    cases atHead
    cases isLast.symm.trans atEnd
    exact follows

section Lawful

variable (wellFormed : grammar.WellFormed) (isLocal : grammar.Local) (held : text.Held)
include wellFormed isLocal held

theorem Finished.fronts {spacing : Nat} {rest others : List Break}
    (chain : (Break.first :: rest).IsChain (Break.Follows grammar text spacing))
    (chainToo : (Break.first :: others).IsChain (Break.Follows grammar text spacing)) :
    rest <+: others ∨ others <+: rest :=
  prefix_or_prefix_of_chains
    (fun _ _ _ follows followsToo => follows.unique wellFormed isLocal held followsToo) chain chainToo

/-- If there is a number for each place that follows then no other pass runs out of them. -/
theorem Finished.not_full {spacing : Nat} {rest others : List Break} {next : Break}
    (few : rest.length < BreakIndex.idRange)
    (last : ∀ value ∈ (Break.first :: rest).getLast?, text.size < value.position + spacing)
    (chain : (Break.first :: rest).IsChain (Break.Follows grammar text spacing))
    (more : (Break.first :: (others ++ [next])).IsChain (Break.Follows grammar text spacing)) :
    others.length + 1 ≠ BreakIndex.idRange := by
  intro all
  have length : (others ++ [next]).length = others.length + 1 := List.length_append
  rcases Finished.fronts wellFormed isLocal held chain more with front | front
  · have same := eq_of_prefix_of_ended
      (fun value atEnd _ => Break.not_follows wellFormed isLocal held (last value atEnd)) more front
    rw [same, length] at few
    omega
  · have longer := front.length_le
    omega

/-- **There is one way only to finish the first pass.** -/
theorem Finished.unique {spacing : Nat} {rest others breaks breaksOther : List Break}
    (finished : Finished grammar text spacing rest breaks)
    (chain : (Break.first :: rest).IsChain (Break.Follows grammar text spacing))
    (finishedToo : Finished grammar text spacing others breaksOther)
    (chainToo : (Break.first :: others).IsChain (Break.Follows grammar text spacing)) :
    breaks = breaksOther := by
  have fronts := Finished.fronts wellFormed isLocal held chain chainToo
  have ends : ∀ {value : Break}, text.size < value.position + spacing → ∀ next,
      ¬ value.Follows grammar text spacing next :=
    fun ended _ => Break.not_follows wellFormed isLocal held ended
  cases finished with
  | ended few last =>
    cases finishedToo with
    | ended fewToo lastToo =>
      rcases fronts with front | front
      · rw [eq_of_prefix_of_ended (fun value atEnd => ends (last value atEnd)) chainToo front]
      · rw [eq_of_prefix_of_ended (fun value atEnd => ends (lastToo value atEnd)) chain front]
    | full all next more => exact absurd all (not_full wellFormed isLocal held few last chain more)
  | full all next more =>
    cases finishedToo with
    | ended few last => exact absurd all (not_full wellFormed isLocal held few last chainToo more)
    | full allToo =>
      have length : rest.length = others.length := by omega
      have same : rest = others := fronts.elim (fun front => front.eq_of_length length)
        fun front => (front.eq_of_length length.symm).symm
      rw [same]

end Lawful

/-- Where nothing is left to process, slices of work do nothing. -/
theorem processAll_of_idle (idle : highlighter.needsProcessing = false) (schedule : List Deadline) :
    processAll text schedule highlighter = .ok highlighter := by
  induction schedule with
  | nil => rfl
  | cons deadline rest ih =>
    rw [processAll, process_of_idle idle]
    exact ih

/-- **Two schedules that finish the first pass over a text leave the same breaks**, with the same
positions, kinds and stacks: a slice of work may end at any look at the clock. -/
theorem breaks_eq_of_processAll {config : Config} (wellFormed : grammar.WellFormed)
    (isLocal : grammar.Local) (held : text.Held) (spaced : 1 ≤ config.spacing)
    {schedule other : List Deadline} {after afterOther : Highlighter}
    (went : processAll text schedule (ofSize grammar config text.size) = .ok after)
    (idle : after.needsProcessing = false)
    (wentOther : processAll text other (ofSize grammar config text.size) = .ok afterOther)
    (idleOther : afterOther.needsProcessing = false) :
    after.breaks.toList.map Prod.snd = afterOther.breaks.toList.map Prod.snd := by
  cases patterned : grammar.hasPatterns with
  | false =>
    have plain : (ofSize grammar config text.size).needsProcessing = false := patterned
    cases (processAll_of_idle plain schedule).symm.trans went
    cases (processAll_of_idle plain other).symm.trans wentOther
    rfl
  | true =>
    have fresh := firstPass_ofSize grammar held spaced
    obtain ⟨rest, chain, finished⟩ :=
      (fresh.processAll wellFormed isLocal held spaced went).finished idle patterned
    obtain ⟨others, chainOther, finishedOther⟩ :=
      (fresh.processAll wellFormed isLocal held spaced wentOther).finished idleOther patterned
    exact finished.unique wellFormed isLocal held chain finishedOther chainOther

theorem breaks_eq_of_processAll_brackets :
    ∃ after afterOther,
      processAll (.ofString "a(bc)") [.never] (ofSize .brackets ⟨2, 1024⟩ 5) = .ok after ∧
      processAll (.ofString "a(bc)") [.expired, .after 1, .expired]
        (ofSize .brackets ⟨2, 1024⟩ 5) = .ok afterOther ∧
      after.needsProcessing = false ∧ afterOther.needsProcessing = false ∧
      after.breaks.toList.map Prod.snd = afterOther.breaks.toList.map Prod.snd := by
  have run : (do
      let after ← processAll (.ofString "a(bc)") [.never] (ofSize .brackets ⟨2, 1024⟩ 5)
      let other ← processAll (.ofString "a(bc)") [.expired, .after 1, .expired]
        (ofSize .brackets ⟨2, 1024⟩ 5)
      return (after.needsProcessing, other.needsProcessing)) =
        (.ok (false, false) : Except Fault (Bool × Bool)) := by decide +kernel
  obtain ⟨after, went, run⟩ := Fault.bind_eq_ok.mp run
  obtain ⟨afterOther, wentOther, run⟩ := Fault.bind_eq_ok.mp run
  obtain ⟨idle, idleOther⟩ := Prod.mk.inj (Except.ok.inj run)
  have size : (Text.ofString "a(bc)").size = 5 := by decide
  have held : (Text.ofString "a(bc)").Held := ⟨Text.isUtf8_ofString _, by decide⟩
  exact ⟨after, afterOther, went, wentOther, idle, idleOther,
    breaks_eq_of_processAll Grammar.wellFormed_brackets Grammar.isLocal_brackets held (by decide)
      (size ▸ went) idle (size ▸ wentOther) idleOther⟩

end Highlighter

end Highlight
