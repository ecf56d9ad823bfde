/-
**Regexes that see no further than their grammar lets them.**

A scan shows its regexes a window of the text. What they match does not depend on it if they look no
further than `maxExtend` bytes around the place where they match:

* `Window.Covers`: a window is a piece of the text, with the boundaries and characters of the text;
* `Regex.Matcher.Local`: a regex that sees only so far; `Regex.Matcher.Local.attempt_moved` says that
  it matches in a window what it matches in the whole text, and `Regex.Matcher.Local.matchAt_moved`
  that it matches the same in two texts that look the same around a place;
* `Grammar.Local`, `Grammar.WellFormed`: what is asked of a grammar.
-/

import Mathlib.Data.List.Basic
import Highlight.Proofs.Fault
import Highlight.Proofs.Text.Replace
import Highlight.Scan.Choice

namespace Highlight

/-! ### Windows -/

namespace Window

/-- The window that shows a whole text. -/
def whole (text : Text) : Window := ⟨text, 0, text.size, ⟨false, false⟩⟩

/-- The window shows the piece of a text that ends at `stop`. -/
structure Covers (window : Window) (text : Text) (stop : Nat) : Prop where
  subject : window.subject = text.extract window.offset stop
  ordered : window.offset ≤ stop
  starts : text.isBoundary window.offset = true
  stops : text.isBoundary stop = true

/-- The window is one that a scan of the text may look into for what matches at a position. -/
def Shows (window : Window) (text : Text) (reach position : Nat) : Prop :=
  text.isBoundary window.searchEnd = true ∧ position < window.searchEnd ∧
    ∃ start ≤ position, text.isBoundary start = true ∧
      around text start window.searchEnd reach = .ok window

/-- A search between two boundaries has a window, which shows what is around them. -/
theorem exists_around {text : Text} {position searchEnd : Nat} (reach : Nat)
    (small : text.size ≤ maxSize) (stops : text.isBoundary searchEnd = true)
    (ordered : position ≤ searchEnd) :
    ∃ window stop, around text position searchEnd reach = .ok window ∧
      window.Covers text stop ∧ window.searchEnd = searchEnd ∧ window.offset ≤ position ∧
      min (searchEnd + reach) text.size ≤ stop := by
  have inText := Text.le_size_of_isBoundary stops
  have front := (Text.isGreatest_floor text (position - reach)).1
  have reached := Text.min_le_ceil text (saturatingAdd searchEnd reach)
  have back : min (searchEnd + reach) text.size ≤ text.ceil (saturatingAdd searchEnd reach) := by
    unfold saturatingAdd at reached ⊢
    omega
  have forward : text.floor (position - reach) ≤ text.ceil (saturatingAdd searchEnd reach) := by
    have := front.2
    omega
  have isSlice : text.isSlice (text.floor (position - reach))
      (text.ceil (saturatingAdd searchEnd reach)) = true := by
    unfold Text.isSlice
    rw [decide_eq_true forward, front.1, Text.isBoundary_ceil]
    rfl
  refine ⟨⟨text.extract (text.floor (position - reach))
      (text.ceil (saturatingAdd searchEnd reach)), text.floor (position - reach), searchEnd,
      ⟨!text.isLineStart (text.floor (position - reach)),
        !text.isLineEnd (text.ceil (saturatingAdd searchEnd reach))⟩⟩,
    text.ceil (saturatingAdd searchEnd reach), ?_, ?_, rfl, ?_, back⟩
  · unfold around
    simp only [Text.slice, isSlice, if_true]
    rfl
  · exact ⟨rfl, forward, front.1, Text.isBoundary_ceil _ _⟩
  · exact front.2.trans (Nat.sub_le _ _)

/-- Whatever a window has been made for, it shows a piece of the text. -/
theorem covers_of_around {window : Window} {text : Text} {position searchEnd reach : Nat}
    (made : around text position searchEnd reach = .ok window) :
    window.searchEnd = searchEnd ∧ ∃ stop, window.Covers text stop := by
  unfold around at made
  obtain ⟨subject, sliced, made⟩ := Fault.bind_eq_ok.mp made
  cases made
  unfold Text.slice at sliced
  split at sliced
  · rename_i isSlice
    cases sliced
    simp only [Text.isSlice, Bool.and_eq_true, decide_eq_true_eq] at isSlice
    obtain ⟨⟨ordered, starts⟩, stops⟩ := isSlice
    exact ⟨rfl, _, rfl, ordered, starts, stops⟩
  · cases sliced

namespace Shows

variable {window : Window} {text : Text} {reach position : Nat}

/-- A window that shows a position covers what can be seen from there. -/
theorem covers (shown : window.Shows text reach position) (small : text.size ≤ maxSize) :
    ∃ stop, window.Covers text stop ∧ window.offset ≤ position ∧ position < stop ∧
      min (position + 1 + reach) text.size ≤ stop := by
  obtain ⟨stops, before, start, behind, -, around⟩ := shown
  obtain ⟨found, stop, aroundFound, covers, searchEnd, offset, back⟩ :=
    exists_around reach small stops (behind.trans before.le)
  have same : window = found := Except.ok.inj (around.symm.trans aroundFound)
  subst same
  have inText := Text.le_size_of_isBoundary stops
  exact ⟨stop, covers, offset.trans behind, by omega, by omega⟩

/-- The whole text shows every position. -/
theorem whole (small : text.size ≤ maxSize) (inside : position < text.size) :
    (whole text).Shows text reach position := by
  refine ⟨Text.isBoundary_size text, inside, 0, Nat.zero_le _, Text.isBoundary_zero text, ?_⟩
  have first : text.floor (0 - reach) = 0 := by
    have := (Text.isGreatest_floor text (0 - reach)).1.2
    omega
  have last : text.ceil (saturatingAdd text.size reach) = text.size := by
    apply Text.ceil_of_size_le
    unfold saturatingAdd
    omega
  have isSlice : text.isSlice 0 text.size = true := by
    unfold Text.isSlice
    rw [Text.isBoundary_zero, Text.isBoundary_size, decide_eq_true (Nat.zero_le _)]
    rfl
  have lineStart : text.isLineStart 0 = true := rfl
  have lineEnd : text.isLineEnd text.size = true := by
    unfold Text.isLineEnd
    rw [decide_eq_true le_rfl, Bool.true_or]
  unfold around Window.whole
  simp only [first, last, lineStart, lineEnd, Text.slice, isSlice, if_true,
    Text.extract_zero_size, Bool.not_true]
  rfl

end Shows

namespace Covers

variable {window : Window} {text : Text} {stop : Nat}

theorem size_add (covers : window.Covers text stop) :
    window.offset + window.subject.size = stop := by
  have inText := Text.le_size_of_isBoundary covers.stops
  have ordered := covers.ordered
  rw [covers.subject, Text.size_extract]
  omega

theorem isBoundary (covers : window.Covers text stop) (index : Nat) :
    window.subject.isBoundary index = true ↔
      window.offset + index ≤ stop ∧ text.isBoundary (window.offset + index) = true := by
  rw [covers.subject]
  exact Text.isBoundary_extract covers.ordered covers.starts covers.stops index

theorem next (covers : window.Covers text stop) {index : Nat}
    (inside : window.offset + index < stop) :
    window.offset + window.subject.next index = text.next (window.offset + index) := by
  rw [covers.subject]
  exact Text.next_extract covers.starts covers.stops inside

/-- What is shown of a text is one. -/
theorem isUtf8 (covers : window.Covers text stop) (utf8 : text.IsUtf8) :
    window.subject.IsUtf8 := by
  have inText := Text.le_size_of_isBoundary covers.stops
  have ordered := covers.ordered
  have front := (utf8.split covers.stops).1
  have boundary : (text.extract 0 stop).isBoundary window.offset = true := by
    rw [Text.isBoundary_extract (Nat.zero_le _) (Text.isBoundary_zero text) covers.stops,
      Nat.zero_add]
    exact ⟨covers.ordered, covers.starts⟩
  have back := (front.split boundary).2
  have piece : (text.extract 0 stop).extract window.offset (text.extract 0 stop).size =
      window.subject := by
    rw [covers.subject, Text.size_extract]
    unfold Text.extract
    rw [ByteArray.extract_extract, Nat.zero_add, Nat.zero_add, Nat.sub_zero, min_eq_left inText,
      min_self]
  rwa [piece] at back

/-- What is shown can be held as the text can. -/
theorem held (covers : window.Covers text stop) (held : text.Held) : window.subject.Held := by
  have sizes := covers.size_add
  have within := Text.le_size_of_isBoundary covers.stops
  have small := held.size_lt
  exact ⟨covers.isUtf8 held.utf8, by omega⟩

/-- A piece of what is shown is the piece of the text, if the text has it shown. -/
theorem slice? (covers : window.Covers text stop) {first last : Nat}
    (inside : min (window.offset + last) text.size ≤ stop) :
    window.subject.slice? first last =
      text.slice? (window.offset + first) (window.offset + last) := by
  by_cases shown : window.offset + last ≤ stop
  · have isSlice : window.subject.isSlice first last =
        text.isSlice (window.offset + first) (window.offset + last) := by
      unfold Text.isSlice
      rw [Bool.eq_iff_iff]
      simp only [Bool.and_eq_true, decide_eq_true_eq, covers.isBoundary]
      constructor
      · rintro ⟨⟨ordered, -, starts⟩, -, stops⟩
        exact ⟨⟨by omega, starts⟩, stops⟩
      · rintro ⟨⟨ordered, starts⟩, stops⟩
        exact ⟨⟨by omega, by omega, starts⟩, shown, stops⟩
    have piece : window.subject.extract first last =
        text.extract (window.offset + first) (window.offset + last) := by
      rw [covers.subject]
      unfold Text.extract
      rw [ByteArray.extract_extract, min_eq_left shown]
    unfold Text.slice?
    rw [isSlice, piece]
  · have beyond : text.isBoundary (window.offset + last) ≠ true := by
      intro boundary
      have := Text.le_size_of_isBoundary boundary
      omega
    have hidden : window.subject.isBoundary last ≠ true := by
      intro boundary
      exact shown ((covers.isBoundary last).mp boundary).1
    unfold Text.slice? Text.isSlice
    rw [Bool.eq_false_iff.mpr beyond, Bool.eq_false_iff.mpr hidden, Bool.and_false, Bool.and_false]
    rfl

end Covers

end Window

/-! ### Places that look the same -/

namespace Text

/-- Two texts are the same from `reach` and one bytes before a place each up to `reach` bytes behind
it, and they begin at the same distance before it if they begin there. -/
structure SameAround (reach : Nat) (first : Text) (position : Nat) (second : Text) (other : Nat) :
    Prop where
  ahead : ∀ distance ≤ reach,
    first.byte? (position + distance) = second.byte? (other + distance)
  behind : ∀ distance ≤ reach + 1,
    first.byte? (position - distance) = second.byte? (other - distance)
  starts : ∀ distance ≤ reach + 1, distance ≤ position ↔ distance ≤ other

namespace SameAround

variable {first second : Text} {reach position other : Nat}

theorem refl (text : Text) : SameAround reach text position text position :=
  ⟨fun _ _ => rfl, fun _ _ => rfl, fun _ _ => Iff.rfl⟩

/-- Texts that agree up to a boundary look the same where nothing behind it can be seen. -/
theorem of_sameBefore {stop : Nat} (same : SameBefore first second stop)
    (before : position + reach < stop) : SameAround reach first position second position :=
  ⟨fun distance near => same.bytes _ (by omega), fun distance _ => same.bytes _ (by omega),
    fun _ _ => Iff.rfl⟩

/-- Texts that agree from a boundary on look the same where nothing before it can be seen. -/
theorem of_sameFrom {start place index : Nat} (same : SameFrom first start second place)
    (behind : reach + 1 ≤ index) :
    SameAround reach first (start + index) second (place + index) := by
  refine ⟨fun distance _ => ?_, fun distance near => ?_, fun distance near => ?_⟩
  · rw [Nat.add_assoc, Nat.add_assoc]
    exact same.bytes _
  · rw [Nat.add_sub_assoc (by omega), Nat.add_sub_assoc (by omega)]
    exact same.bytes _
  · constructor <;> intro <;> omega

/-- The bytes that can be seen are the same. -/
theorem byte?_eq (same : SameAround reach first position second other) {index place : Nat}
    (aligned : index + other = place + position) (front : position ≤ index + reach + 1)
    (back : index ≤ position + reach) : first.byte? index = second.byte? place := by
  rcases le_total position index with ahead | behind
  · have here := same.ahead (index - position) (by omega)
    rwa [Nat.add_sub_cancel' ahead, show other + (index - position) = place by omega] at here
  · have here := same.behind (position - index) (by omega)
    rwa [Nat.sub_sub_self behind, show other - (position - index) = place by omega] at here

/-- The boundaries that can be seen are the same. -/
theorem isBoundary_eq (same : SameAround reach first position second other) {index place : Nat}
    (aligned : index + other = place + position) (front : position ≤ index + reach)
    (back : index ≤ position + reach) : first.isBoundary index = second.isBoundary place := by
  have bytes := same.byte?_eq aligned (by omega) back
  have zero : index = 0 ↔ place = 0 := by
    constructor
    · intro none
      have reached := same.starts other
      have starts := same.starts (position + 1)
      omega
    · intro none
      have reached := same.starts position
      have starts := same.starts (other + 1)
      omega
  rcases Nat.eq_zero_or_pos index with none | positive
  · rw [none, zero.mp none, isBoundary_zero, isBoundary_zero]
  · -- The text ends at the place if there is a byte before it and none at it.
    have before : first.byte? (index - 1) = second.byte? (place - 1) :=
      same.byte?_eq (by omega) (by omega) (by omega)
    have inFirst : (first.byte? (index - 1)).isSome ↔ index - 1 < first.size := byte?_isSome
    have inSecond : (second.byte? (place - 1)).isSome ↔ place - 1 < second.size := byte?_isSome
    have endsFirst : first.byte? index = none ↔ first.size ≤ index := byte?_eq_none
    have endsSecond : second.byte? place = none ↔ second.size ≤ place := byte?_eq_none
    rw [before] at inFirst
    rw [bytes] at endsFirst
    have ends : index = first.size ↔ place = second.size := by
      constructor <;> intro last
      · have : place - 1 < second.size := inSecond.mp (inFirst.mpr (by omega))
        have : second.size ≤ place := endsSecond.mp (endsFirst.mpr (by omega))
        omega
      · have : index - 1 < first.size := inFirst.mp (inSecond.mpr (by omega))
        have : first.size ≤ index := endsFirst.mp (endsSecond.mpr (by omega))
        omega
    rw [Bool.eq_iff_iff, isBoundary_iff, isBoundary_iff, zero, ends, bytes]

/-- The pieces that can be seen are the same. -/
theorem slice?_eq (same : SameAround reach first position second other) {start stop place last : Nat}
    (starts : start + other = place + position) (stops : stop + other = last + position)
    (front : position ≤ start + reach) (back : stop ≤ position + reach) :
    first.slice? start stop = second.slice? place last := by
  by_cases ordered : start ≤ stop
  · have isSlice : first.isSlice start stop = second.isSlice place last := by
      unfold isSlice
      rw [same.isBoundary_eq starts front (by omega), same.isBoundary_eq stops (by omega) back,
        decide_eq_true ordered, decide_eq_true (by omega)]
    have piece : first.extract start stop = second.extract place last := by
      apply ext_byte?
      intro index
      rw [byte?_extract, byte?_extract]
      by_cases inside : start + index < stop
      · rw [if_pos inside, if_pos (by omega)]
        exact same.byte?_eq (by omega) (by omega) (by omega)
      · rw [if_neg inside, if_neg (by omega)]
    unfold slice?
    rw [isSlice, piece]
  · unfold slice? isSlice
    rw [decide_eq_false ordered, decide_eq_false (by omega)]
    rfl

end SameAround

end Text

/-! ### Regexes -/

namespace Regex

namespace Match

/-- A match that ends, and whose groups lie, no more than `reach` bytes from the position where it
starts. -/
structure Near (found : Match) (text : Text) (reach position : Nat) : Prop where
  start : found.start = position
  ordered : position ≤ found.stop
  reached : found.stop ≤ position + reach
  stops : text.isBoundary found.stop = true
  groups : ∀ group first last, found.span? group = some (first, last) →
    position ≤ first + reach ∧ last ≤ position + reach

theorem moved_moved (found : Match) (offset further : Nat) :
    (found.moved offset).moved further = found.moved (offset + further) := by
  simp only [moved, List.map_map, Nat.add_assoc, Match.mk.injEq, true_and]
  refine List.map_congr_left fun span _ => ?_
  cases span <;> simp [Nat.add_assoc]

theorem moved_injective (offset : Nat) : Function.Injective fun found : Match =>
    found.moved offset := by
  have pairs : Function.Injective fun span : Option (Nat × Nat) =>
      span.map fun bounds => (bounds.1 + offset, bounds.2 + offset) := by
    apply Option.map_injective
    intro first second same
    simp only [Prod.mk.injEq, Nat.add_right_cancel_iff] at same
    exact Prod.ext same.1 same.2
  intro first second same
  rcases first with ⟨start, stop, groups⟩
  rcases second with ⟨start', stop', groups'⟩
  simp only [moved, Match.mk.injEq, Nat.add_right_cancel_iff] at same
  obtain ⟨rfl, rfl, spans⟩ := same
  rw [List.map_injective_iff.mpr pairs spans]

@[simp]
theorem span?_moved (found : Match) (offset group : Nat) :
    (found.moved offset).span? group =
      (found.span? group).map fun (start, stop) => (start + offset, stop + offset) := by
  unfold span? moved
  rw [List.getElem?_map]
  cases found.groups[group]? <;> rfl

/-- The text of a group in a window is its text in the whole text. -/
theorem group?_moved {found : Match} {window : Window} {text : Text} {reach position stop : Nat}
    (covers : window.Covers text stop) (seen : min (position + reach) text.size ≤ stop)
    (near : (found.moved window.offset).Near text reach position) (group : Nat) :
    found.group? window.subject group = (found.moved window.offset).group? text group := by
  have spans := near.groups group
  unfold group?
  rw [span?_moved] at spans ⊢
  cases here : found.span? group with
  | none => rfl
  | some span =>
    obtain ⟨first, last⟩ := span
    have within := spans (first + window.offset) (last + window.offset) (by rw [here]; rfl)
    simp only [Option.map_some]
    rw [covers.slice? (by omega), Nat.add_comm first, Nat.add_comm last]

/-- A piece that a group has in a window it has in the text. -/
theorem group?_of_window {found : Match} {window : Window} {text piece : Text} {stop group : Nat}
    (covers : window.Covers text stop) (here : found.group? window.subject group = some piece) :
    (found.moved window.offset).group? text group = some piece := by
  unfold group? at here ⊢
  rw [span?_moved]
  cases captured : found.span? group with
  | none =>
    rw [captured] at here
    cases here
  | some span =>
    obtain ⟨first, last⟩ := span
    rw [captured] at here
    have inWindow : window.subject.isBoundary last = true := by
      simp only [Text.slice?] at here
      split at here
      · rename_i isSlice
        simp only [Text.isSlice, Bool.and_eq_true] at isSlice
        exact isSlice.2
      · cases here
    have shown := ((covers.isBoundary last).mp inWindow).1
    simp only [Option.map_some] at here ⊢
    rwa [Nat.add_comm first, Nat.add_comm last, ← covers.slice? (by omega)]

/-- The text of a group is the same where the texts are. -/
theorem group?_congr {found counterpart : Match} {first second : Text} {reach position other : Nat}
    (same : Text.SameAround reach first position second other)
    (near : found.Near first reach position)
    (aligned : found.moved other = counterpart.moved position) (group : Nat) :
    found.group? first group = counterpart.group? second group := by
  have spans := congrArg (fun moved => moved.span? group) aligned
  have within := near.groups group
  simp only [span?_moved] at spans
  unfold group?
  cases here : found.span? group with
  | none =>
    rw [here] at spans
    rw [Option.map_eq_none_iff.mp spans.symm]
  | some span =>
    obtain ⟨start, stop⟩ := span
    rw [here] at spans
    cases there : counterpart.span? group with
    | none =>
      rw [there] at spans
      cases spans
    | some span =>
      obtain ⟨place, last⟩ := span
      rw [there] at spans
      simp only [Option.map_some, Option.some_inj, Prod.mk.injEq] at spans
      have reached := within start stop here
      exact same.slice?_eq spans.1 spans.2 reached.1 reached.2

end Match

namespace Matcher

/-- What a regex matches at a position of a whole text. -/
def matchAt (matcher : Matcher) (text : Text) (position : Nat) : Option Match :=
  matcher.attempt text position position ⟨false, false⟩

/-- **A regex that sees no more than `reach` bytes around where it matches.** What it matches at a
place is the same wherever the text looks the same around the place, whichever window shows it and
wherever the search began, and it keeps near the place. -/
structure Local (matcher : Matcher) (reach : Nat) : Prop where
  same : ∀ {first second : Text} {window other : Window} {position place origin start : Nat},
    first.Held → second.Held → window.Shows first reach position → other.Shows second reach place →
    first.isBoundary position = true → second.isBoundary place = true →
    Text.SameAround reach first position second place →
    origin ≤ window.relative position → start ≤ other.relative place →
    (matcher.attempt window.subject origin (window.relative position) window.flags).map
        (·.moved (window.offset + place)) =
      (matcher.attempt other.subject start (other.relative place) other.flags).map
        (·.moved (other.offset + position))
  near : ∀ {text : Text} {position : Nat} {found : Match}, text.Held → position < text.size →
    text.isBoundary position = true → matcher.matchAt text position = some found →
    found.Near text reach position

namespace Local

variable {matcher : Matcher} {reach : Nat}

/-- A regex matches in a window what it matches in the whole text. -/
theorem attempt_moved (isLocal : matcher.Local reach) {text : Text} {window : Window}
    {position origin : Nat} (held : text.Held) (shown : window.Shows text reach position)
    (boundary : text.isBoundary position = true) (behind : origin ≤ window.relative position) :
    (matcher.attempt window.subject origin (window.relative position) window.flags).map
        (·.moved window.offset) = matcher.matchAt text position := by
  have small := held.size_lt_maxSize.le
  have inside : position < text.size :=
    shown.2.1.trans_le (Text.le_size_of_isBoundary shown.1)
  have same := isLocal.same held held shown (Window.Shows.whole small inside) boundary boundary
    (Text.SameAround.refl text) behind (show position ≤ (Window.whole text).relative position from le_rfl)
  simp only [Window.whole, Window.relative, Nat.zero_add, Nat.sub_zero] at same
  apply Option.map_injective (Match.moved_injective position)
  rw [Option.map_map]
  simp only [Function.comp_def, Match.moved_moved]
  exact same

/-- A regex matches the same where two texts look the same. -/
theorem matchAt_moved (isLocal : matcher.Local reach) {first second : Text} {position place : Nat}
    (firstHeld : first.Held) (secondHeld : second.Held) (inFirst : position < first.size)
    (inSecond : place < second.size) (firstBoundary : first.isBoundary position = true)
    (secondBoundary : second.isBoundary place = true)
    (same : Text.SameAround reach first position second place) :
    (matcher.matchAt first position).map (·.moved place) =
      (matcher.matchAt second place).map (·.moved position) := by
  have moved := isLocal.same firstHeld secondHeld
    (Window.Shows.whole firstHeld.size_lt_maxSize.le inFirst)
    (Window.Shows.whole secondHeld.size_lt_maxSize.le inSecond) firstBoundary secondBoundary same
    (show position ≤ (Window.whole first).relative position from le_rfl)
    (show place ≤ (Window.whole second).relative place from le_rfl)
  simp only [Window.whole, Window.relative, Nat.zero_add, Nat.sub_zero] at moved
  exact moved

end Local

end Matcher

end Regex

/-! ### Grammars -/

namespace Grammar

/-- All regexes of a grammar see no further than the grammar lets them. -/
structure Local (grammar : Grammar) : Prop where
  closing : ∀ pattern ∈ grammar.patterns, ∀ id ∈ pattern.closing, ∀ regex,
    grammar.regexes[id]? = some regex → regex.alone.Local grammar.maxExtend
  opening : ∀ pattern ∈ grammar.patterns, ∀ id ∈ pattern.opening, ∀ regex matcher,
    grammar.regexes[id]? = some regex → regex.member = .ok matcher →
      matcher.Local grammar.maxExtend

/-- A grammar has a root and the regexes its regions end with. -/
structure WellFormed (grammar : Grammar) : Prop where
  root : ∃ pattern, grammar.patterns[rootPattern]? = some pattern
  closing : ∀ pattern ∈ grammar.patterns, ∀ id ∈ pattern.closing, id < grammar.regexes.size

end Grammar

end Highlight
