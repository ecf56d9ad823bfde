/-
**What an edit or a slice of work makes of the styles that may have changed.**

A text has been edited since its styles were asked for the last time. Outside of the range that is
noted as changed they are the styles of the old text:

* `Text.SameUpTo`: the texts agree as far as the styles before a position go;
* `Break.Keeps`: the styles behind a break, from a bound on, are those of the old text;
* `Highlighter.Covers`: **the range that is noted covers every change**, up to what is left to process;
* `Highlighter.Covers.edit`, `Highlighter.Covers.process`: edits and slices of work keep this.
-/

import Highlight.Proofs.Highlighter.Edit
import Highlight.Proofs.Scan.Highlight

namespace Highlight

open BreakIndex (Entry)

variable {grammar : Grammar} {original text edited : Text} {change : Change}

/-! ### Pending ranges -/

namespace Span

/-- The end of a range that may be missing. -/
def bound (pending : Option Span) : Nat := (pending.map Span.stop).getD 0

variable {pending : Option Span} {span : Span}

theorem bound_le_add : bound pending ≤ bound (add pending span) := by
  unfold add
  split
  · exact le_rfl
  · cases pending with
    | none => exact Nat.zero_le _
    | some pending => exact le_max_left _ _

theorem stop_le_add {start stop : Nat} (nonempty : start < stop) :
    stop ≤ bound (add pending ⟨start, stop⟩) := by
  unfold add isEmpty
  rw [if_neg (by simpa using nonempty)]
  cases pending with
  | none => exact le_rfl
  | some pending => exact le_max_right _ _

theorem add_le {limit : Nat} (before : bound pending ≤ limit) (inside : span.stop ≤ limit) :
    bound (add pending span) ≤ limit := by
  unfold add
  split
  · exact before
  · cases pending with
    | none => exact inside
    | some pending => exact max_le before inside

/-- An edit carries the end of a range along. -/
theorem bound_carry (nonempty : 0 < bound pending) :
    bound (pending.map (carry change)) = change.carry (bound pending) := by
  cases pending with
  | none => exact absurd nonempty (lt_irrefl 0)
  | some span => rfl

/-- What is before a range that has been added to is before both. -/
theorem le_of_add {position : Nat} (ahead : ∀ other ∈ add pending span, position ≤ other.start) :
    (∀ other ∈ pending, position ≤ other.start) ∧
      (span.start < span.stop → position ≤ span.start) := by
  unfold add isEmpty at ahead
  by_cases empty : span.stop ≤ span.start
  · rw [if_pos (by simpa using empty)] at ahead
    exact ⟨ahead, fun nonempty => absurd nonempty (not_lt.mpr empty)⟩
  · rw [if_neg (by simpa using empty)] at ahead
    cases pending with
    | none => exact ⟨(fun _ member => nomatch member), fun _ => ahead span rfl⟩
    | some pending =>
      have both : position ≤ min pending.start span.start := ahead _ rfl
      refine ⟨fun other member => ?_, fun _ => both.trans (min_le_right _ _)⟩
      cases member
      exact both.trans (min_le_left _ _)

/-- A range from the start of the text on is added. -/
theorem start_add {stop : Nat}
    (starts : stop = 0 → ∀ other ∈ pending, other.start = 0) :
    ∀ other ∈ add pending ⟨0, stop⟩, other.start = 0 := by
  unfold add isEmpty
  by_cases empty : stop = 0
  · rw [if_pos (by simp [empty])]
    exact starts empty
  · rw [if_neg (by simpa using empty)]
    cases pending with
    | none =>
      intro other member
      cases member
      rfl
    | some pending =>
      intro other member
      cases member
      exact Nat.min_zero _

end Span

/-! ### The styles before a change -/

namespace Text

/-- Two texts are the same, or the same beyond a limit. -/
def SameUpTo (first second : Text) (limit : Nat) : Prop :=
  first = second ∨ ∃ stop, limit < stop ∧ SameBefore first second stop

theorem SameUpTo.edit {limit : Nat} (same : SameUpTo original text limit)
    (edits : Edits text edited change) (before : limit < change.start) :
    SameUpTo original edited limit := by
  rcases same with rfl | ⟨stop, beyond, same⟩
  · exact Or.inr ⟨change.start, before, edits.front⟩
  · exact Or.inr ⟨min stop change.start, lt_min beyond before, same.trans edits.front⟩

end Text

/-! ### The styles behind a change -/

namespace Break

/-- From a break on, and from a bound on, the styles of the text are the last ones of `old`. -/
def Keeps (grammar : Grammar) (text : Text) (old : List StyleId) (bound : Nat) (value : Break) :
    Prop :=
  ∃ styles final, grammar.Walk text value.spot styles final ∧ final.position = text.size ∧
    styles.drop (bound - value.position) <:+ old

variable {old : List StyleId} {bound other : Nat} {value : Break}

theorem Keeps.mono (keeps : value.Keeps grammar text old bound)
    (further : bound - value.position ≤ other - value.position) :
    value.Keeps grammar text old other := by
  obtain ⟨styles, final, walk, ended, suffix⟩ := keeps
  exact ⟨styles, final, walk, ended, (List.drop_suffix_drop_left styles further).trans suffix⟩

section Lawful

variable (wellFormed : grammar.WellFormed) (isLocal : grammar.Local) (held : text.Held)
include wellFormed isLocal held

/-- The first break keeps what a break behind it does, if the bound is not before that. -/
theorem Visited.keeps_first (visited : value.Visited grammar text)
    (keeps : value.Keeps grammar text old bound) (inFront : value.position ≤ bound) :
    first.Keeps grammar text old bound := by
  obtain ⟨front, walk⟩ := visited
  obtain ⟨styles, final, further, ended, suffix⟩ := keeps
  have length : front.length = value.position := walk.length_initial wellFormed isLocal held
  refine ⟨front ++ styles, final, walk.trans further, ended, ?_⟩
  show (front ++ styles).drop (bound - 0) <:+ old
  rw [Nat.sub_zero, List.drop_append, List.drop_of_length_le (by omega), List.nil_append,
    show bound - front.length = bound - value.position by omega]
  exact suffix

/-- A break that the machine gets to keeps what the first one does. -/
theorem Visited.keeps (visited : value.Visited grammar text)
    (keeps : first.Keeps grammar text old bound) : value.Keeps grammar text old bound := by
  have good := visited.good wellFormed isLocal held
  obtain ⟨front, walk⟩ := visited
  obtain ⟨styles, final, whole, ended, suffix⟩ := keeps
  obtain ⟨rest, last, further, -, endedToo⟩ :=
    Grammar.exists_walk_to_end wellFormed isLocal held good
  have length : front.length = value.position := walk.length_initial wellFormed isLocal held
  obtain ⟨rfl, rfl⟩ := (walk.trans further).unique whole endedToo.ge ended.ge
  refine ⟨rest, final, further, ended, List.IsSuffix.trans ?_ suffix⟩
  show rest.drop (bound - value.position) <:+ (front ++ rest).drop (bound - 0)
  rw [Nat.sub_zero, List.drop_append, length]
  exact List.suffix_append _ _

/-- Where nothing is behind the bound everything is kept. -/
theorem keeps_of_size_le (old : List StyleId) (ended : text.size ≤ bound) :
    first.Keeps grammar text old bound := by
  obtain ⟨styles, final, walk, -, atEnd⟩ := Grammar.exists_walk_to_end wellFormed isLocal held
    (Spot.good_initial grammar text)
  have length := walk.length_initial wellFormed isLocal held
  refine ⟨styles, final, walk, atEnd, ?_⟩
  show styles.drop (bound - 0) <:+ old
  rw [List.drop_of_length_le (by omega)]
  exact List.nil_suffix

/-- Without patterns the styles behind an edit stay, if the grammar is steady. -/
theorem Keeps.edit (keeps : first.Keeps grammar text old bound) (steady : grammar.IsSteady)
    (plain : grammar.hasPatterns = false) (heldEdited : edited.Held)
    (edits : Text.Edits text edited change) (behind : change.newEnd ≤ other)
    (further : bound + change.newEnd ≤ other + change.oldEnd) :
    first.Keeps grammar edited old other := by
  obtain ⟨styles, final, walk, ended, suffix⟩ := keeps
  obtain ⟨others, last, walkToo, -, endedToo⟩ := Grammar.exists_walk_to_end wellFormed isLocal
    heldEdited (Spot.good_initial grammar edited)
  have same : styles.drop change.oldEnd = others.drop change.newEnd :=
    steady.walk wellFormed isLocal plain held heldEdited edits.back walk ended walkToo endedToo
  have dropped : others.drop other = styles.drop (change.oldEnd + (other - change.newEnd)) := by
    rw [← List.drop_drop, same, List.drop_drop, Nat.add_sub_cancel' behind]
  refine ⟨others, last, walkToo, endedToo, ?_⟩
  show others.drop (other - 0) <:+ old
  rw [Nat.sub_zero, dropped]
  have inFront : bound - first.position ≤ change.oldEnd + (other - change.newEnd) := by
    show bound - 0 ≤ _
    omega
  exact (List.drop_suffix_drop_left styles inFront).trans suffix

/-- A break behind an edit keeps what it did, if the bound has been carried along. -/
theorem Keeps.carried (keeps : value.Keeps grammar text old bound) (heldEdited : edited.Held)
    (edits : Text.Edits text edited change) (good : value.spot.Good grammar text)
    (clear : change.oldEnd + (grammar.maxExtend + 1) < value.position)
    (further : bound - value.position ≤ other - change.carry value.position) :
    (value.carried change).Keeps grammar edited old other := by
  obtain ⟨styles, final, walk, ended, suffix⟩ := keeps
  have inside : value.position ≤ text.size := good.position_le
  have moved := walk_carried wellFormed isLocal held heldEdited edits walk good clear
  have sizes := edits.size_add
  have stop := edits.carry_behind (show change.oldEnd ≤ final.position by omega) ended.le
  refine ⟨styles, _, moved, ?_, (List.drop_suffix_drop_left styles further).trans suffix⟩
  show change.carry final.position = edited.size
  omega

end Lawful

end Break

namespace Highlighter

/-- **The range that is noted as changed covers every change.** Before it the text is the original one
as far as the styles there go, up to what is left to process. Behind it the styles are the last ones of
`old`, where nothing is left to process, and from every old break on that may be relied on. -/
structure Covers (original : Text) (old : List StyleId) (text : Text) (highlighter : Highlighter)
    (behind : List Entry) (reached : Break) (ahead : List Entry) : Prop where
  sound : Sound text (Break.Keeps highlighter.grammar text old (Span.bound highlighter.dirty))
    highlighter behind reached ahead
  front : highlighter.grammar.hasPatterns = true → ∀ position, 0 < position →
    position ≤ text.size → (∀ span ∈ highlighter.dirty, position ≤ span.start) →
    (highlighter.needsProcessing = true → position ≤ reached.position) →
      original.SameUpTo text (position + highlighter.grammar.maxExtend)
  back : highlighter.needsProcessing = false →
    Break.first.Keeps highlighter.grammar text old (Span.bound highlighter.dirty)
  pending : highlighter.needsProcessing = true →
    reached.position ≤ Span.bound highlighter.dirty
  inside : Span.bound highlighter.dirty ≤ text.size
  length : text.size ≤ Span.bound highlighter.dirty + old.length
  /-- Without patterns nothing is ever scanned. -/
  plain : highlighter.grammar.hasPatterns = false → ∀ span ∈ highlighter.dirty, span.start = 0

variable {old : List StyleId} {highlighter after : Highlighter} {behind ahead : List Entry}
  {reached : Break}

namespace Covers

/-- A slice of work keeps the changes covered, as long as there are numbers for all slots. -/
theorem process (covers : Covers original old text highlighter behind reached ahead)
    {deadline : Deadline} {scanned : Nat}
    (went : highlighter.process text deadline = .ok (scanned, after))
    (numbered : after.breaks.Numbered) :
    after.grammar = highlighter.grammar ∧
      ∃ behind final ahead, Covers original old text after behind final ahead := by
  cases pending : highlighter.needsProcessing with
  | false =>
    rw [process_of_idle pending] at went
    cases went
    exact ⟨rfl, behind, reached, ahead, covers⟩
  | true =>
    obtain ⟨stop, front, final, rest, soundAfter, worked⟩ := covers.sound.process_spec pending went numbered
    have wellFormed := covers.sound.wellFormed
    have isLocal := covers.sound.isLocal
    have held := covers.sound.held
    have grows : Span.bound highlighter.dirty ≤ Span.bound after.dirty := by
      rw [worked.dirty]
      exact Span.bound_le_add
    have scannedTo : stop ≤ Span.bound after.dirty := by
      rcases worked.forward.lt_or_eq with further | same
      · rw [worked.dirty]
        exact Span.stop_le_add further
      · rw [← same]
        exact (covers.pending pending).trans grows
    refine ⟨worked.grammar, front, final, rest, ⟨?_, ?_, ?_, ?_, ?_, ?_, ?_⟩⟩
    · rw [worked.grammar]
      exact soundAfter.imp fun value keeps => keeps.mono (Nat.sub_le_sub_right grows _)
    · intro patterned position positive inText ahead upTo
      rw [worked.grammar] at patterned ⊢
      rw [worked.dirty] at ahead
      obtain ⟨before, inScanned⟩ := Span.le_of_add ahead
      refine covers.front patterned position positive inText before fun _ => ?_
      rcases worked.forward.lt_or_eq with further | same
      · exact inScanned further
      · cases pendingAfter : after.needsProcessing with
        | true => exact (upTo pendingAfter).trans ((worked.pending pendingAfter).trans same.ge)
        | false =>
          rcases worked.idle pendingAfter with ended | ⟨value, -, -, beyond, passed⟩
          · exact inText.trans (ended.trans same.ge)
          · omega
    · intro idle
      rw [worked.grammar]
      rcases worked.idle idle with ended | ⟨value, visited, keeps, -, passed⟩
      · exact Break.keeps_of_size_le wellFormed isLocal held old (ended.trans scannedTo)
      · exact visited.keeps_first wellFormed isLocal held
          (keeps.mono (Nat.sub_le_sub_right grows _)) (passed.trans scannedTo)
    · intro pendingAfter
      exact (worked.pending pendingAfter).trans scannedTo
    · rw [worked.dirty]
      exact Span.add_le covers.inside worked.inside
    · exact covers.length.trans (Nat.add_le_add_right grows _)
    · intro plain
      rw [worked.grammar] at plain
      exact absurd pending (by rw [(covers.sound.plain plain).1]; exact Bool.false_ne_true)

/-- An edit and what had been noted before it end before the end of what is noted. -/
theorem bound_edit (covers : Covers original old text highlighter behind reached ahead)
    (edits : Text.Edits text edited change) (heldEdited : edited.Held)
    (went : highlighter.edit change = .ok after) :
    change.newEnd ≤ Span.bound after.dirty ∧
      Span.bound highlighter.dirty + change.newEnd ≤ Span.bound after.dirty + change.oldEnd := by
  obtain ⟨start, _, _, _, -, made⟩ := covers.sound.edit_spec edits heldEdited
    (fun _ => True) (fun _ _ _ _ => trivial) went
  have ordered := edits.newEnd
  have before := made.start_le
  have upTo : change.newEnd ≤ Span.bound after.dirty := by
    rcases (show start ≤ change.newEnd by omega).lt_or_eq with further | same
    · rw [made.dirty]
      exact Span.stop_le_add further
    · rcases made.clear with none | clear <;> omega
  refine ⟨upTo, ?_⟩
  rcases le_or_gt (Span.bound highlighter.dirty) change.oldEnd with inFront | behind
  · omega
  · have grows : Span.bound (highlighter.dirty.map (Span.carry change)) ≤ Span.bound after.dirty := by
      rw [made.dirty]
      exact Span.bound_le_add
    have moved := edits.carry_behind behind.le covers.inside
    rw [Span.bound_carry (by omega)] at grows
    omega

/-- A break behind an edit promises the same styles for the new text as it did for the old one. -/
theorem keeps_carried (covers : Covers original old text highlighter behind reached ahead)
    (edits : Text.Edits text edited change) (heldEdited : edited.Held)
    (grows : Span.bound highlighter.dirty + change.newEnd ≤ Span.bound after.dirty + change.oldEnd)
    {value : Break} (good : value.spot.Good highlighter.grammar text)
    (clear : change.oldEnd + (highlighter.grammar.maxExtend + 1) < value.position)
    (known : highlighter.needsProcessing = false ∧ value.Visited highlighter.grammar text ∨
      value.Keeps highlighter.grammar text old (Span.bound highlighter.dirty)) :
    (value.carried change).Keeps highlighter.grammar edited old (Span.bound after.dirty) := by
  have wellFormed := covers.sound.wellFormed
  have isLocal := covers.sound.isLocal
  have held := covers.sound.held
  have keeps : value.Keeps highlighter.grammar text old (Span.bound highlighter.dirty) := by
    rcases known with ⟨idle, visited⟩ | keeps
    · exact visited.keeps wellFormed isLocal held (covers.back idle)
    · exact keeps
  refine keeps.carried wellFormed isLocal held heldEdited edits good clear ?_
  have start := edits.carry_behind (show change.oldEnd ≤ value.position by omega) good.position_le
  omega

/-- What had been noted lies inside of the new text. -/
theorem bound_carried (covers : Covers original old text highlighter behind reached ahead)
    (edits : Text.Edits text edited change) :
    Span.bound (highlighter.dirty.map (Span.carry change)) ≤ edited.size := by
  cases pending : highlighter.dirty with
  | none => exact Nat.zero_le _
  | some span =>
    have inText := covers.inside
    rw [pending] at inText
    exact edits.carry_le_size inText

/-- Without patterns all that is noted begins at the start of the text, also behind a deletion there. -/
theorem start_carried (covers : Covers original old text highlighter behind reached ahead)
    (edits : Text.Edits text edited change) (plain : highlighter.grammar.hasPatterns = false)
    (emptied : change.newEnd = 0) :
    ∀ span ∈ highlighter.dirty.map (Span.carry change), span.start = 0 := by
  intro span member
  obtain ⟨before, inDirty, rfl⟩ := Option.mem_map.mp member
  show change.carry before.start = 0
  rw [covers.plain plain before inDirty]
  rcases Nat.eq_zero_or_pos change.oldEnd with none | positive
  · have moved := edits.carry_behind none.le (Nat.zero_le _)
    omega
  · exact edits.carry_before (Nat.zero_le _) positive

/-- An edit keeps the changes covered. -/
theorem edit (covers : Covers original old text highlighter behind reached ahead)
    (steady : highlighter.grammar.IsSteady) (edits : Text.Edits text edited change)
    (heldEdited : edited.Held) (went : highlighter.edit change = .ok after) :
    after.grammar = highlighter.grammar ∧
      ∃ behind final ahead, Covers original old edited after behind final ahead := by
  have wellFormed := covers.sound.wellFormed
  have isLocal := covers.sound.isLocal
  have held := covers.sound.held
  have sizes := edits.size_add
  obtain ⟨upTo, grows⟩ := covers.bound_edit edits heldEdited went
  obtain ⟨start, front, final, rest, soundAfter, made⟩ := covers.sound.edit_spec edits heldEdited _
    (fun _ good clear known => covers.keeps_carried edits heldEdited grows good clear known) went
  have startLe := made.start_le
  have ordered := edits.newEnd
  have long : edited.size ≤ Span.bound after.dirty + old.length := by
    have before := covers.length
    omega
  refine ⟨made.grammar, front, final, rest, ⟨made.grammar ▸ soundAfter, ?_, ?_, ?_, ?_, long, ?_⟩⟩
  · intro patterned position positive inText ahead upTo
    rw [made.grammar] at patterned ⊢
    rw [made.dirty] at ahead
    have before := (Span.le_of_add ahead).1
    have inFront := upTo (made.needsProcessing.trans patterned)
    rw [made.position] at inFront
    have clear := made.clear
    have removed := Text.le_size_of_isBoundary edits.front.left
    refine (covers.front patterned position positive (by omega) ?_ fun _ => by omega).edit edits
      (by omega)
    intro span member
    exact edits.le_of_le_carry (by omega)
      (before (Span.carry change span) (Option.mem_map_of_mem _ member))
  · intro idle
    rw [made.needsProcessing] at idle
    have keeps := covers.back (covers.sound.plain idle).1
    rw [made.grammar]
    exact keeps.edit wellFormed isLocal held steady idle heldEdited edits upTo grows
  · intro _
    rw [made.position]
    omega
  · rw [made.dirty]
    exact Span.add_le (covers.bound_carried edits) (Text.le_size_of_isBoundary edits.back.right)
  · intro plain
    rw [made.grammar] at plain
    rw [made.dirty, made.plain plain]
    exact Span.start_add (covers.start_carried edits plain)

end Covers

end Highlighter

end Highlight
