/-
**Breaks are in order and not too far apart, whatever the regexes match.**

Of the regexes nothing is asked but that a match lies in what was searched, and is not too long. Then a
break is stored as soon as one is due, at the end of the match or character that the scan is in:

* `Break.spread`: what is asked of breaks if none is to be too far from the next;
* `Break.suits_spread`: wherever a scan reports a boundary such a break may be stored;
* `Highlighter.Spread`: **what is true of a highlighter and its text** between two operations;
* `Highlighter.Spread.process`, `Highlighter.Spread.edit`: slices of work and edits keep it true;
* `Highlighter.Spread.ordered`: so the breaks are in order, and the frontier is one of them;
* `Highlighter.Spread.near_checkpointBefore`: where nothing is left to process, there is a break near any
  position.
-/

import Highlight.Proofs.Highlighter.Charted
import Highlight.Proofs.Scan.Lawful

namespace Highlight

open BreakIndex (Entry)

variable {grammar : Grammar} {text edited : Text} {change : Change}

/-! ### Distances -/

/-- How far behind a break the next one is at most, if matches have `longest` bytes at most: it is due
after `spacing` bytes, and then a match or a character may have to end. -/
def Config.stride (config : Config) (longest : Nat) : Nat := config.spacing + max longest 4

namespace Break

/-- No break is too far from the next, nor the last one from the end of the text. -/
def spread (text : Text) (config : Config) (longest : Nat) : Demands :=
  ⟨fun _ => True, fun value next => next.position < value.position + config.stride longest,
    fun _ => True, fun value => text.size < value.position + config.spacing⟩

/-- **The moves of a scan lead to breaks that are near enough.** -/
theorem suits_spread {longest : Nat} (wellFormed : grammar.WellFormed)
    (bounded : grammar.Bounded longest) (held : text.Held) (config : Config) :
    Pass.Suits grammar text
      (fun state move => grammar.Stride text state move ∧ move.Short (max longest 4))
      (fun _ => True) (spread text config longest) config.spacing True where
  makes := Grammar.makes_stride wellFormed bounded held
  starts := fun _ _ => trivial
  move := fun _ _ _ => trivial
  inside := by
    intro state move token good _ isMade delivered plain place boundary behind before
    refine ⟨⟨boundary, good.known⟩, trivial, fun frontier _ near _ _ => ?_⟩
    have three := held.utf8.ceil_le_add_three (frontier.position + config.spacing)
    have four := le_max_right longest 4
    show place < frontier.position + (config.spacing + max longest 4)
    omega
  across := by
    rintro state move token good - ⟨stride, short⟩ delivered notPlain
    refine ⟨⟨stride.good.boundary, stride.good.known⟩, trivial, fun frontier _ near _ _ => ?_⟩
    obtain ⟨-, starts, stops, -⟩ := stride.token token delivered
    have isShort := short token delivered notPlain
    show move.state.position < frontier.position + (config.spacing + max longest 4)
    omega
  passesOn := fun _ _ => trivial
  last := fun _ _ ended => ended

end Break

namespace Highlighter

variable {longest : Grammar → Nat} {highlighter after : Highlighter} {behind ahead : List Entry}
  {reached : Break}

/-- A highlighter whose breaks are at boundaries of its text, in order and not too far apart as far as
they fit it, under a grammar with matches of a length that is known. -/
structure Spread (text : Text) (longest : Grammar → Nat) (highlighter : Highlighter)
    (behind : List Entry) (reached : Break) (ahead : List Entry) : Prop
    extends Charted text (Break.spread text highlighter.config (longest highlighter.grammar))
      highlighter behind reached ahead where
  wellFormed : highlighter.grammar.WellFormed
  bounded : highlighter.grammar.Bounded (longest highlighter.grammar)

theorem spread_reset (highlighter : Highlighter) (wellFormed : highlighter.grammar.WellFormed)
    (bounded : highlighter.grammar.Bounded (longest highlighter.grammar)) (held : text.Held)
    (spaced : 0 < highlighter.config.spacing) :
    Spread text longest (highlighter.reset text.size) [] Break.first [] :=
  ⟨charted_reset highlighter held spaced trivial, wellFormed, bounded⟩

theorem spread_ofSize {grammar : Grammar} {config : Config} (wellFormed : grammar.WellFormed)
    (bounded : grammar.Bounded (longest grammar)) (held : text.Held) (spaced : 0 < config.spacing) :
    Spread text longest (ofSize grammar config text.size) [] Break.first [] :=
  ⟨charted_ofSize grammar held spaced trivial, wellFormed, bounded⟩

/-- An edit moves breaks without changing the distances between them. -/
theorem survives_spread (longest : Nat) (edits : Text.Edits text edited change) :
    Survives text edited (Break.spread text highlighter.config longest)
      (Break.spread edited highlighter.config longest) highlighter change where
  first := trivial
  reached := fun _ _ _ => trivial
  passed := fun _ _ _ near => near
  linked := by
    intro value other good goodOther ordered clear near
    have start := edits.carry_behind (show change.oldEnd ≤ value.position by omega) good.position_le
    have stop := edits.carry_behind (show change.oldEnd ≤ other.position by omega)
      goodOther.position_le
    change other.position < value.position + _ at near
    show change.carry other.position < change.carry value.position + _
    omega
  kept := fun _ _ _ => trivial
  last := by
    intro value good clear near
    have sizes := edits.size_add
    have start := edits.carry_behind (show change.oldEnd ≤ value.position by omega) good.position_le
    change text.size < value.position + _ at near
    show edited.size < change.carry value.position + _
    omega

/-- The breaks are in order between characters of a text, from the one at its start on, and the frontier
is one of them: the last one where nothing is left to process. -/
structure Ordered (text : Text) (highlighter : Highlighter) : Prop where
  starts : highlighter.breaks.toList.head? = some (BreakIndex.first, Break.first)
  sorted : BreakIndex.Sorted highlighter.breaks.toList
  inText : ∀ entry ∈ highlighter.breaks.toList, text.isBoundary entry.2.position = true ∧
    entry.2.position ≤ text.size
  live : highlighter.breaks.contains highlighter.frontier = true
  listed : ∃ reached, (highlighter.frontier, reached) ∈ highlighter.breaks.toList
  idle : highlighter.needsProcessing = false → highlighter.frontier = highlighter.breaks.last ∧
    highlighter.breaks.toList.getLast?.map Prod.fst = some highlighter.frontier ∧
    highlighter.restartEnd = none

namespace Spread

variable (spread : Spread text longest highlighter behind reached ahead)
include spread

theorem setGrammar {grammar : Grammar} (wellFormed : grammar.WellFormed)
    (bounded : grammar.Bounded (longest grammar)) :
    Spread text longest (highlighter.setGrammar grammar text.size) [] Break.first [] :=
  spread_reset { highlighter with grammar := grammar } wellFormed bounded spread.held spread.spaced

theorem takeDirty : Spread text longest highlighter.takeDirty.2 behind reached ahead :=
  ⟨spread.toCharted.takeDirty, spread.wellFormed, spread.bounded⟩

/-- **A slice of work keeps the breaks in order and near enough**, as long as there are numbers for all
slots. -/
theorem process {deadline : Deadline} {scanned : Nat}
    (went : highlighter.process text deadline = .ok (scanned, after))
    (numbered : after.breaks.Numbered) :
    after.grammar = highlighter.grammar ∧
      ∃ front final rest, Spread text longest after front final rest := by
  cases pending : highlighter.needsProcessing with
  | false =>
    rw [process_of_idle pending] at went
    cases went
    exact ⟨rfl, behind, reached, ahead, spread⟩
  | true =>
    obtain ⟨stop, front, final, rest, worked⟩ := spread.toCharted.process_spec
      (Break.suits_spread spread.wellFormed spread.bounded spread.held _) (fun _ => trivial) pending
      went numbered
    refine ⟨worked.grammar, front, final, rest, ⟨?_, ?_, ?_⟩⟩
    · rw [worked.grammar, worked.config]
      exact worked.charted
    · exact worked.grammar ▸ spread.wellFormed
    · exact worked.grammar ▸ spread.bounded

/-- **An edit keeps the breaks in order and near enough.** -/
theorem edit (edits : Text.Edits text edited change) (heldEdited : edited.Held)
    (went : highlighter.edit change = .ok after) :
    after.grammar = highlighter.grammar ∧
      ∃ front final rest, Spread edited longest after front final rest := by
  obtain ⟨start, front, final, rest, made⟩ :=
    spread.toCharted.edit_spec edits heldEdited (survives_spread _ edits) went
  refine ⟨made.grammar, front, final, rest, ⟨?_, ?_, ?_⟩⟩
  · rw [made.grammar, made.config]
    exact made.charted
  · exact made.grammar ▸ spread.wellFormed
  · exact made.grammar ▸ spread.bounded

/-- **The breaks are in order, and the frontier is one of them.** -/
theorem ordered : highlighter.Ordered text := by
  have tracks := spread.tracks
  have list := tracks.holds.toList_eq
  refine ⟨list ▸ tracks.starts, list ▸ tracks.sorted, fun entry member => ?_, ?_, ⟨reached, ?_⟩,
    fun idle => ?_⟩
  · rw [list] at member
    have good := tracks.good entry member
    exact ⟨good.boundary, good.position_le⟩
  · unfold BreakIndex.contains
    rw [tracks.holds.node?_eq]
    rfl
  · rw [list]
    simp
  · obtain ⟨unmarked, rfl, -⟩ := spread.idle idle
    have last := tracks.holds.last
    rw [BreakIndex.lastId_append, BreakIndex.lastId_cons] at last
    refine ⟨Option.some.inj last, ?_, unmarked⟩
    rw [list, List.getLast?_concat]
    rfl

/-- **Where nothing is left to process, there is a break near any position.** -/
theorem near_checkpointBefore (idle : highlighter.needsProcessing = false)
    (patterned : highlighter.grammar.hasPatterns = true) (hint : Option BreakId) {position : Nat}
    (inside : position ≤ text.size) :
    ∃ id value, highlighter.checkpointBefore hint position = .ok id ∧
      highlighter.breaks.get id = .ok value ∧ value.spot.Good highlighter.grammar text ∧
      value.position ≤ position ∧
      position + 1 < value.position + highlighter.config.stride (longest highlighter.grammar) := by
  obtain ⟨front, id, value, back, split, sought, found, before, next⟩ :=
    spread.checkpointBefore_spec hint position
  obtain ⟨-, rfl, last⟩ := spread.idle idle
  have good : value.spot.Good highlighter.grammar text :=
    spread.tracks.good (id, value) (by rw [split]; simp)
  refine ⟨id, value, sought, found, good, before.trans (min_le_left _ _), ?_⟩
  have chain := spread.tracks.passed
  rw [split] at chain
  cases back with
  | nil =>
    -- It is the last break.
    obtain ⟨rfl, rfl⟩ : highlighter.frontier = id ∧ reached = value := by
      have same := List.append_inj_right' split rfl
      simpa using same
    have ended : text.size < reached.position + highlighter.config.spacing := last patterned
    unfold Config.stride
    omega
  | cons entry back =>
    have near : entry.2.position < value.position + highlighter.config.stride _ :=
      (List.isChain_cons_cons.mp chain.right_of_append).1
    have beyond := next entry List.mem_cons_self
    have inFront : entry.2.position ≤ reached.position := by
      have member : entry ∈ behind ++ [(highlighter.frontier, reached)] := by
        rw [split]
        simp
      rcases List.mem_append.mp member with inBehind | here
      · exact (spread.tracks.sorted.before entry inBehind).le
      · rw [List.mem_singleton.mp here]
    omega

end Spread

end Highlighter

end Highlight
