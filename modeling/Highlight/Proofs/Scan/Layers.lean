/-
**Which of many styles a byte gets.**

A byte has the style of the innermost region that has one, unless groups of a match lie over it, which have
the styles that the pattern gives them:

* `Grammar.Innermost`: the style of the innermost frame of a stack that has one, and
  `Grammar.innermost_iff`: it is the style of the stack;
* `Regex.Match.Over`, `Regex.Match.Top`: a group over a place, and the style on top there, which is that of
  the last such group;
* `Regex.Match.top_iff`: **the pieces that the groups of a match style give each place the style on top**.
-/

import Mathlib.Data.List.Induction
import Highlight.Proofs.Scan.Walk

namespace Highlight

/-! ### The innermost style -/

namespace Grammar

variable {grammar : Grammar}

/-- A frame whose pattern has no style. -/
def Unstyled (grammar : Grammar) (frame : Frame) : Prop :=
  ∃ pattern, grammar.pattern frame.pattern = .ok pattern ∧ pattern.style = none

/-- The style of the first of some frames that has one, or that of the default. -/
def FirstStyle (grammar : Grammar) (frames : List Frame) (style : StyleId) : Prop :=
  (∃ inner frame outer pattern, frames = inner ++ frame :: outer ∧
    (∀ other ∈ inner, grammar.Unstyled other) ∧ grammar.pattern frame.pattern = .ok pattern ∧
      pattern.style = some style) ∨
  (∀ frame ∈ frames, grammar.Unstyled frame) ∧ style = defaultStyle

/-- The style of the innermost frame of a stack that has one, or that of the default. -/
def Innermost (grammar : Grammar) (stack : PatternStack) : StyleId → Prop :=
  grammar.FirstStyle (stack.regions ++ [PatternStack.rootFrame])

theorem firstStyle_cons_iff {frame : Frame} {rest : List Frame} {pattern : Pattern}
    (there : grammar.pattern frame.pattern = .ok pattern) (style : StyleId) :
    grammar.FirstStyle (frame :: rest) style ↔
      pattern.style = some style ∨ pattern.style = none ∧ grammar.FirstStyle rest style := by
  constructor
  · rintro (⟨inner, other, outer, found, split, unstyled, known, styled⟩ | ⟨unstyled, rfl⟩)
    · cases inner with
      | nil =>
        cases split
        cases there.symm.trans known
        exact Or.inl styled
      | cons first inner =>
        cases split
        obtain ⟨⟨_, knownToo, none⟩, unstyled⟩ := List.forall_mem_cons.mp unstyled
        cases there.symm.trans knownToo
        exact Or.inr ⟨none, Or.inl ⟨inner, other, outer, found, rfl, unstyled, known, styled⟩⟩
    · obtain ⟨⟨_, knownToo, none⟩, unstyled⟩ := List.forall_mem_cons.mp unstyled
      cases there.symm.trans knownToo
      exact Or.inr ⟨none, Or.inr ⟨unstyled, rfl⟩⟩
  · have here : pattern.style = none → grammar.Unstyled frame := fun none => ⟨pattern, there, none⟩
    rintro (styled | ⟨none, ⟨inner, other, outer, found, rfl, unstyled, rest⟩ | ⟨unstyled, rfl⟩⟩)
    · exact Or.inl ⟨[], frame, rest, pattern, rfl, (fun _ member => nomatch member), there, styled⟩
    · exact Or.inl ⟨frame :: inner, other, outer, found, rfl,
        List.forall_mem_cons.mpr ⟨here none, unstyled⟩, rest⟩
    · exact Or.inr ⟨List.forall_mem_cons.mpr ⟨here none, unstyled⟩, rfl⟩

theorem firstStyle_iff {frames : List Frame} {style : StyleId}
    (styled : PatternStack.firstStyle grammar frames = .ok style) (other : StyleId) :
    grammar.FirstStyle frames other ↔ other = style := by
  induction frames with
  | nil =>
    cases styled
    constructor
    · rintro (⟨inner, _, _, _, split, -⟩ | ⟨-, same⟩)
      · cases inner <;> cases split
      · exact same
    · rintro rfl
      exact Or.inr ⟨(fun _ member => nomatch member), rfl⟩
  | cons frame rest ih =>
    obtain ⟨pattern, there, styled⟩ := Fault.bind_eq_ok.mp styled
    rw [firstStyle_cons_iff there]
    cases own : pattern.style with
    | some found =>
      rw [own] at styled
      cases styled
      simp [eq_comm]
    | none =>
      rw [own] at styled
      rw [ih styled]
      simp

/-- **The style that is found is that of the innermost frame which has one.** -/
theorem innermost_iff {stack : PatternStack} {style : StyleId}
    (styled : stack.style grammar = .ok style) (other : StyleId) :
    grammar.Innermost stack other ↔ other = style :=
  firstStyle_iff styled other

end Grammar

/-! ### The groups of a match -/

namespace Regex.Match

variable {found : Match} {captures : List (Option StyleId)} {place : Nat}

/-- A group of a match has a style of its own and lies over a place, as far as the group is in the match. -/
def Over (found : Match) (captures : List (Option StyleId)) (place group : Nat) (style : StyleId) :
    Prop :=
  captures[group]? = some (some style) ∧ ∃ start stop, found.span? group = some (start, stop) ∧
    max start found.start ≤ place ∧ place < min stop found.stop

/-- The style on top at a place: that of the last group over it, or the one below all groups. -/
def Top (found : Match) (captures : List (Option StyleId)) (ground : StyleId) (place : Nat)
    (style : StyleId) : Prop :=
  (∃ group, found.Over captures place group style ∧
    ∀ later other, group < later → ¬ found.Over captures place later other) ∨
  (∀ group other, ¬ found.Over captures place group other) ∧ style = ground

/-- The piece of a match that a group styles. -/
def piece? (found : Match) (style : Option StyleId) (group : Nat) : Option StyledSpan := do
  let style ← style
  let (start, stop) ← found.span? group
  let start := max start found.start
  let stop := min stop found.stop
  if start < stop then some ⟨start, stop, style⟩ else none

theorem mem_piece?_iff {last : Option StyleId} {group : Nat} {piece : StyledSpan} :
    piece ∈ found.piece? last group ↔ ∃ style start stop, last = some style ∧
      found.span? group = some (start, stop) ∧ max start found.start < min stop found.stop ∧
        piece = ⟨max start found.start, min stop found.stop, style⟩ := by
  unfold piece?
  constructor
  · intro member
    obtain ⟨style, styled, member⟩ := Option.bind_eq_some_iff.mp member
    obtain ⟨⟨start, stop⟩, captured, member⟩ := Option.bind_eq_some_iff.mp member
    simp only at member
    split at member
    · rename_i ordered
      cases member
      exact ⟨style, start, stop, styled, captured, ordered, rfl⟩
    · cases member
  · rintro ⟨style, start, stop, rfl, captured, ordered, rfl⟩
    simp only [captured, Option.bind_eq_bind, Option.bind_some, if_pos ordered]
    rfl

theorem captureSpans_concat (found : Match) (captures : List (Option StyleId))
    (last : Option StyleId) :
    found.captureSpans (captures ++ [last]) =
      found.captureSpans captures ++ (found.piece? last captures.length).toList := by
  have pieces : ∀ styles, found.captureSpans styles =
      styles.zipIdx.filterMap fun entry => found.piece? entry.1 entry.2 := fun _ => rfl
  rw [pieces, pieces, List.zipIdx_append, List.filterMap_append, Nat.zero_add, List.zipIdx_singleton]
  congr 1

theorem Over.lt {group : Nat} {style : StyleId} (lies : found.Over captures place group style) :
    group < captures.length := (List.getElem?_eq_some_iff.mp lies.1).1

/-- The last group lies over the places of its piece, and the others where they did without it. -/
theorem over_concat_iff {last : Option StyleId} {group : Nat} {style : StyleId} :
    found.Over (captures ++ [last]) place group style ↔
      found.Over captures place group style ∨ group = captures.length ∧
        ∃ piece ∈ found.piece? last captures.length,
          piece.start ≤ place ∧ place < piece.stop ∧ piece.style = style := by
  rcases lt_trichotomy group captures.length with before | rfl | beyond
  · unfold Over
    rw [List.getElem?_append_left before]
    exact ⟨Or.inl, fun either => either.resolve_right fun both => before.ne both.1⟩
  · have outside : ¬ found.Over captures place captures.length style := fun lies => lies.lt.false
    unfold Over at outside ⊢
    rw [List.getElem?_concat_length, Option.some_inj]
    constructor
    · rintro ⟨rfl, start, stop, captured, behind, before⟩
      exact Or.inr ⟨rfl, _, mem_piece?_iff.mpr ⟨style, start, stop, rfl, captured,
        behind.trans_lt before, rfl⟩, behind, before, rfl⟩
    · rintro (lies | ⟨-, piece, member, behind, before, rfl⟩)
      · exact absurd lies outside
      · obtain ⟨style, start, stop, rfl, captured, -, rfl⟩ := mem_piece?_iff.mp member
        exact ⟨rfl, start, stop, captured, behind, before⟩
  · constructor
    · intro lies
      have := lies.lt
      rw [List.length_append, List.length_singleton] at this
      omega
    · rintro (lies | ⟨same, -⟩)
      · exact absurd lies.lt beyond.not_gt
      · exact absurd same beyond.ne'

/-- Where a group is the last one over a place, its style is on top. -/
theorem Over.top_iff {group : Nat} {style : StyleId} (lies : found.Over captures place group style)
    (last : ∀ later other, group < later → ¬ found.Over captures place later other)
    (ground other : StyleId) : found.Top captures ground place other ↔ other = style := by
  constructor
  · rintro (⟨number, above, lastToo⟩ | ⟨none, -⟩)
    · rcases lt_trichotomy number group with before | rfl | behind
      · exact absurd lies (lastToo _ _ before)
      · exact Option.some_inj.mp (Option.some_inj.mp (above.1.symm.trans lies.1))
      · exact absurd above (last _ _ behind)
    · exact absurd lies (none _ _)
  · rintro rfl
    exact Or.inl ⟨group, lies, last⟩

/-- **The style under the pieces of a match is the one on top.** -/
theorem top_iff (ground style : StyleId) :
    found.Top captures ground place style ↔
      style = StyledSpan.styleAt (found.captureSpans captures) ground place := by
  induction captures using List.reverseRecOn with
  | nil =>
    have none : ∀ group other, ¬ found.Over [] place group other := fun _ _ lies => nomatch lies.lt
    constructor
    · rintro (⟨group, lies, -⟩ | ⟨-, same⟩)
      · exact absurd lies (none group style)
      · exact same
    · intro same
      exact Or.inr ⟨none, same⟩
  | append_singleton captures last ih =>
    rw [captureSpans_concat]
    unfold StyledSpan.styleAt at ih ⊢
    rw [List.foldl_append]
    by_cases covered : ∃ piece ∈ found.piece? last captures.length,
        piece.start ≤ place ∧ place < piece.stop
    · -- Nothing lies over the piece of the last group.
      obtain ⟨piece, member, inside⟩ := covered
      have lies : found.Over (captures ++ [last]) place captures.length piece.style :=
        over_concat_iff.mpr (Or.inr ⟨rfl, piece, member, inside.1, inside.2, rfl⟩)
      rw [show found.piece? last captures.length = some piece from member, Option.toList_some,
        List.foldl_cons, List.foldl_nil, if_pos inside]
      refine lies.top_iff (fun later other beyond above => ?_) ground style
      have := above.lt
      rw [List.length_append, List.length_singleton] at this
      omega
    · -- The last group makes no difference here.
      have same : ∀ group other, found.Over (captures ++ [last]) place group other ↔
          found.Over captures place group other := by
        intro group other
        rw [over_concat_iff]
        exact ⟨fun either => either.resolve_right fun ⟨_, piece, member, behind, before, _⟩ =>
          covered ⟨piece, member, behind, before⟩, Or.inl⟩
      have top : found.Top (captures ++ [last]) ground place style ↔
          found.Top captures ground place style := by
        unfold Top
        simp only [same]
      rw [top, ih]
      cases here : found.piece? last captures.length with
      | none => rfl
      | some piece =>
        have outside : ¬ (piece.start ≤ place ∧ place < piece.stop) := fun inside =>
          covered ⟨piece, here, inside⟩
        rw [Option.toList_some, List.foldl_cons, List.foldl_nil, if_neg outside]

end Regex.Match

end Highlight
