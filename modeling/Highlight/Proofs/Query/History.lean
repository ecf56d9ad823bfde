/-
**How exact an answer is, and what was asked before.**

A guess that is kept is not used again where a new run would begin at a break that is near. But where
guesses may be used a new run also begins at a break that is no further back than a guess would begin,
however far that is, and then the guess is used again all the same:

* `StyleCache.Asks`: a question that has to be scanned for;
* `StyleCache.Lags`: a question that a guess is used for again, with the break before it too far away;
* `StyleCache.Reachable.exact_iff_of_fresh`: **where a new cache answers exactly, one that has been used
  does, but for such questions**, which it answers with a guess.
-/

import Highlight.Proofs.Grammar.Brackets
import Highlight.Proofs.Query.Reachable

namespace Highlight

open BreakIndex (Entry)

variable {text : Text} {highlighter : Highlighter} {cache : StyleCache} {behind ahead : List Entry}
  {reached : Break}

namespace StyleCache

/-! ### Questions -/

/-- A question is answered exactly. -/
def AnswersExactly (cache : StyleCache) (text : Text) (highlighter : Highlighter)
    (position count : Nat) : Prop :=
  ∃ value after, cache.styles text highlighter position count = .ok (.exact value, after)

/-- A question is answered with a guess. -/
def Guesses (cache : StyleCache) (text : Text) (highlighter : Highlighter) (position count : Nat) :
    Prop :=
  ∃ value after, cache.styles text highlighter position count = .ok (.approximate value, after)

/-- A question is about some bytes, and there are patterns to scan for. -/
structure Asks (text : Text) (highlighter : Highlighter) (position count : Nat) : Prop where
  patterned : highlighter.grammar.hasPatterns = true
  some : min position text.size < min (position + count) text.size

/-- Any other question is answered exactly. -/
theorem answersExactly_of_not_asks (small : text.size ≤ maxSize) {position count : Nat}
    (none : ¬ Asks text highlighter position count) :
    cache.AnswersExactly text highlighter position count := by
  unfold AnswersExactly styles
  simp only [min_saturatingAdd small]
  by_cases patterned : highlighter.grammar.hasPatterns = true
  · rw [if_neg (not_not.mpr patterned)]
    have nothing : min position text.size = min (position + count) text.size := by
      by_contra some
      exact none ⟨patterned, by omega⟩
    rw [if_pos nothing]
    exact ⟨_, _, rfl⟩
  · rw [if_pos patterned]
    exact ⟨_, _, rfl⟩

section Asked

variable {position count farthest : Nat} (small : text.size ≤ maxSize)
  (asks : Asks text highlighter position count)
  (distance : highlighter.config.maxDistance highlighter.grammar = .ok farthest)
include small asks distance

/-- The run that is kept answers, if it may be used again. -/
theorem styles_of_reused {run : StyleRun} (kept : cache.run = .some run)
    (reused : cache.isReusable highlighter (min position text.size) farthest = .ok true) :
    cache.styles text highlighter position count =
      serve run cache.hint text highlighter (min position text.size)
        (min (position + count) text.size) farthest := by
  rcases cache with ⟨_, hint⟩
  cases kept
  unfold styles
  simp only [min_saturatingAdd small, asks.patterned, not_true_eq_false, if_false, asks.some.ne,
    distance, Fault.ok_bind, reused]

/-- Otherwise a new run answers. -/
theorem styles_of_new {seed : Option StyleRun} {id : BreakId}
    (reused : cache.isReusable highlighter (min position text.size) farthest = .ok false)
    (begins : cache.seed? text highlighter (min position text.size) = .ok (seed, id)) :
    cache.styles text highlighter position count =
      match seed with
      | .some run => serve run (.some id) text highlighter (min position text.size)
          (min (position + count) text.size) farthest
      | .none => .ok (.unavailable, ⟨.none, .some id⟩) := by
  unfold styles
  simp only [min_saturatingAdd small, asks.patterned, not_true_eq_false, if_false, asks.some.ne,
    distance, Fault.ok_bind, reused, begins]
  cases seed <;> rfl

end Asked

/-- An answer is exact if the run that serves it is, and the size that it may be trimmed to is one. -/
theorem exact_of_serve {run : StyleRun} {hint : Option BreakId} {start stop farthest : Nat}
    {value : Array StyleId} {after : StyleCache}
    (served : serve run hint text highlighter start stop farthest = .ok (.exact value, after)) :
    run.exact = true ∧ 4 * farthest ≤ maxSize := by
  obtain ⟨longer, shorter, styles, extended, trimmed, -, answered, -⟩ := serve_eq_ok_iff.mp served
  have sameLonger : longer.exact = run.exact := by
    obtain ⟨-, rfl⟩ | ⟨_, _, _, _, -, -, rfl⟩ := extend_cases extended
    · rfl
    · rfl
  have sameShorter : shorter.exact = longer.exact := by
    obtain ⟨cut, -, rfl⟩ := trim_cases trimmed
    rfl
  constructor
  · split at answered
    · rename_i isExact
      exact sameLonger.symm.trans (sameShorter.symm.trans isExact)
    · cases answered
  · obtain ⟨bound, product, -⟩ := Fault.bind_eq_ok.mp trimmed
    unfold checkedMul at product
    split at product
    · assumption
    · cases product

/-- What a new cache has to find in order to answer a question exactly: the sizes that it forms are such,
and the run that it begins is exact. -/
theorem exists_seed_of_fresh (small : text.size ≤ maxSize) {position count : Nat}
    (asks : Asks text highlighter position count)
    (fresh : empty.AnswersExactly text highlighter position count) :
    ∃ farthest run id, highlighter.config.maxDistance highlighter.grammar = .ok farthest ∧
      4 * farthest ≤ maxSize ∧
      empty.seed? text highlighter (min position text.size) = .ok (.some run, id) ∧
      run.exact = true := by
  obtain ⟨value, after, asked⟩ := fresh
  unfold styles at asked
  simp only [min_saturatingAdd small, asks.patterned, not_true_eq_false, if_false, asks.some.ne]
    at asked
  obtain ⟨farthest, distance, asked⟩ := Fault.bind_eq_ok.mp asked
  change (isReusable empty highlighter (min position text.size) farthest >>= _) = _ at asked
  rw [show isReusable empty highlighter (min position text.size) farthest = .ok false from rfl,
    Fault.ok_bind] at asked
  obtain ⟨⟨seed, id⟩, begins, asked⟩ := Fault.bind_eq_ok.mp asked
  cases seed with
  | none => cases asked
  | some run =>
    obtain ⟨isExact, bound⟩ := exact_of_serve asked
    exact ⟨farthest, run, id, distance, bound, begins, isExact⟩

/-! ### Questions that a guess is used for again -/

/-- A question that has to be scanned for is near a guess that is kept, and further from the break before it
than questions may be. -/
def Lags (cache : StyleCache) (text : Text) (highlighter : Highlighter) (position count : Nat) :
    Prop :=
  Asks text highlighter position count ∧
    ∃ run ∈ cache.run, run.exact = false ∧ run.row.start ≤ min position text.size ∧
      min position text.size ≤ run.row.stop + highlighter.config.farthest highlighter.grammar ∧
      ∃ id value, highlighter.checkpointBefore cache.hint (min position text.size) = .ok id ∧
        highlighter.breaks.get id = .ok value ∧
        value.position + highlighter.config.farthest highlighter.grammar < min position text.size

/-- A question is not answered in two ways. -/
theorem AnswersExactly.not_guesses {position count : Nat}
    (exactly : cache.AnswersExactly text highlighter position count) :
    ¬ cache.Guesses text highlighter position count := by
  rintro ⟨value, after, guessed⟩
  obtain ⟨other, rest, answered⟩ := exactly
  cases answered.symm.trans guessed

/-! ### New caches and used ones -/

section Fresh

variable (laid : highlighter.Laid text behind reached ahead)
include laid

/-- **A question that a new cache answers exactly** is answered exactly by one that has been used, or with a
guess where that lags. -/
theorem answers_of_fresh (aligned : cache.Aligned highlighter.grammar text) {position count : Nat}
    (asks : Asks text highlighter position count)
    (fresh : empty.AnswersExactly text highlighter position count) :
    ¬ cache.Lags text highlighter position count ∧
        cache.AnswersExactly text highlighter position count ∨
      cache.Lags text highlighter position count ∧
        cache.Guesses text highlighter position count ∧
        highlighter.grammar.approximate = true ∧
        highlighter.config.farthest highlighter.grammar < highlighter.config.reparseRange + 3 := by
  have small := laid.held.size_lt
  have smallToo := laid.held.size_lt_maxSize.le
  have ordered := asks.some.le
  obtain ⟨farthest, run, id, distance, fits, begins, isExact⟩ :=
    exists_seed_of_fresh smallToo asks fresh
  obtain ⟨-, rfl⟩ := Config.maxDistance_eq_ok_iff.mp distance
  obtain ⟨here, value, before, good, sought, found, starts⟩ :=
    laid.exists_start distance (min position text.size)
  obtain ⟨seeds, seeded⟩ := starts cache
  obtain ⟨runAligned, behind⟩ := laid.seed?_spec begins
  -- The new run of the one cache is that of the other.
  have same := (starts empty).2.symm.trans begins
  rw [Except.ok.injEq, Prod.mk.injEq] at same
  have chosen := same.1
  rw [chosen] at seeded
  have near : min position text.size - value.position ≤
        highlighter.config.farthest highlighter.grammar ∨ highlighter.grammar.approximate = true ∧
          text.floor (min position text.size - highlighter.config.reparseRange) ≤ value.position := by
    by_contra far
    rw [if_neg far] at chosen
    split at chosen
    · cases chosen
      cases isExact
    · cases chosen
  obtain ⟨reusable, reused, used⟩ :=
    exists_isReusable aligned (by unfold maxSize at *; omega) seeds
  cases reusable with
  | false =>
    refine Or.inl ⟨?_, ?_⟩
    · rintro ⟨-, kept, member, guess, inside, close, _, other, soughtToo, foundToo, far⟩
      cases (sought _).symm.trans soughtToo
      cases found.symm.trans foundToo
      exact Bool.false_ne_true (used.mpr ⟨kept, member, inside, close, Or.inr (by omega)⟩)
    · obtain ⟨styles, after, served⟩ :=
        serve_of_fits laid fits runAligned (some here) ordered (min_le_right _ _) behind
      rw [if_pos isExact] at served
      refine ⟨styles, after, ?_⟩
      rw [styles_of_new smallToo asks distance reused seeded]
      exact served
  | true =>
    obtain ⟨kept, member, inside, close, serves⟩ := used.mp rfl
    obtain ⟨styles, after, served⟩ :=
      serve_of_fits laid fits (aligned kept member) cache.hint ordered (min_le_right _ _) inside
    rw [← styles_of_reused smallToo asks distance member reused] at served
    cases guess : kept.exact with
    | true =>
      rw [if_pos guess] at served
      refine Or.inl ⟨?_, styles, after, served⟩
      rintro ⟨-, other, memberToo, guessToo, -⟩
      cases Option.mem_unique member memberToo
      rw [guess] at guessToo
      cases guessToo
    | false =>
      rw [guess] at served serves
      have far := serves.resolve_left Bool.false_ne_true
      obtain ⟨approximate, low⟩ := near.resolve_left (not_le.mpr far)
      have floor := laid.held.utf8.le_floor_add_three
        (show min position text.size - highlighter.config.reparseRange ≤ text.size by omega)
      exact Or.inr ⟨⟨asks, kept, member, guess, inside, close, here, value, sought _, found,
        by omega⟩, ⟨styles, after, served⟩, approximate, by omega⟩

end Fresh

/-- **Where a new cache answers exactly, one that has been used does unless it lags.** Where it lags it
answers with a guess, and that needs a grammar that allows guesses and settings where these begin further
back than questions may be from breaks, but for the three bytes that a character may be longer. -/
theorem Reachable.exact_iff_of_fresh (reachable : Reachable text highlighter cache)
    {position count : Nat} (fresh : empty.AnswersExactly text highlighter position count) :
    (cache.AnswersExactly text highlighter position count ↔
        ¬ cache.Lags text highlighter position count) ∧
      (cache.Lags text highlighter position count →
        cache.Guesses text highlighter position count ∧ highlighter.grammar.approximate = true ∧
        highlighter.config.farthest highlighter.grammar < highlighter.config.reparseRange + 3) := by
  obtain ⟨behind, reached, ahead, laid⟩ := reachable.laid
  by_cases asks : Asks text highlighter position count
  · rcases answers_of_fresh laid reachable.aligned asks fresh with
      ⟨current, exactly⟩ | ⟨lags, guesses, because⟩
    · exact ⟨iff_of_true exactly current, fun lags => absurd lags current⟩
    · exact ⟨iff_of_false (fun exactly => exactly.not_guesses guesses) (not_not.mpr lags),
        fun _ => ⟨guesses, because⟩⟩
  · have exactly : cache.AnswersExactly text highlighter position count :=
      answersExactly_of_not_asks laid.held.size_lt_maxSize.le asks
    have current : ¬ cache.Lags text highlighter position count := fun lags => asks lags.1
    exact ⟨iff_of_true exactly current, fun lags => absurd lags current⟩

end StyleCache

/-- The grammar with regions between round brackets, where guesses may be used. -/
def Grammar.guessing : Grammar := { brackets with approximate := true }

theorem Grammar.wellFormed_guessing : guessing.WellFormed :=
  ⟨wellFormed_brackets.root, wellFormed_brackets.closing⟩

theorem Grammar.lawful_guessing : guessing.Lawful := ⟨lawful_brackets.1, lawful_brackets.2⟩

/-- Nothing has been processed. The byte at 5 is guessed from 1 on, and the guess is used again for the
one at 4, where a new one would begin at the start of the text. -/
theorem StyleCache.exact_iff_of_fresh_guessing :
    ∃ cache, Reachable (.ofString "abcdef") (.ofSize .guessing ⟨1, 4⟩ 6) cache ∧
      empty.AnswersExactly (.ofString "abcdef") (.ofSize .guessing ⟨1, 4⟩ 6) 4 1 ∧
      cache.Guesses (.ofString "abcdef") (.ofSize .guessing ⟨1, 4⟩ 6) 4 1 ∧
      ¬ cache.AnswersExactly (.ofString "abcdef") (.ofSize .guessing ⟨1, 4⟩ 6) 4 1 := by
  have fresh : Reachable (.ofString "abcdef") (.ofSize .guessing ⟨1, 4⟩ 6) empty :=
    .fresh ⟨Text.isUtf8_ofString _, by decide⟩ Grammar.wellFormed_guessing Grammar.lawful_guessing
  have near : (empty.styles (.ofString "abcdef") (.ofSize .guessing ⟨1, 4⟩ 6) 4 1).map
      (fun outcome => outcome.1) = (.ok (.exact #[0]) : Except Fault _) := by decide +kernel
  have far : (empty.styles (.ofString "abcdef") (.ofSize .guessing ⟨1, 4⟩ 6) 5 1).map
      (fun outcome => outcome.2) = (.ok ⟨some ⟨⟨1, #[0, 0, 0, 0, 0]⟩, ⟨6, .root, none⟩, false⟩,
        some BreakIndex.first⟩ : Except Fault _) := by decide +kernel
  obtain ⟨⟨answer, other⟩, answered, rfl⟩ := Fault.map_eq_ok.mp near
  obtain ⟨⟨guess, cache⟩, asked, rfl⟩ := Fault.map_eq_ok.mp far
  have exactly : empty.AnswersExactly (.ofString "abcdef") (.ofSize .guessing ⟨1, 4⟩ 6) 4 1 :=
    ⟨_, other, answered⟩
  have lags : Lags ⟨some ⟨⟨1, #[0, 0, 0, 0, 0]⟩, ⟨6, .root, none⟩, false⟩, some BreakIndex.first⟩
      (.ofString "abcdef") (.ofSize .guessing ⟨1, 4⟩ 6) 4 1 :=
    ⟨⟨rfl, by decide⟩, _, rfl, rfl, by decide, by decide, BreakIndex.first, Break.first, rfl, rfl,
      by decide⟩
  have used := (fresh.styles asked).exact_iff_of_fresh exactly
  exact ⟨_, fresh.styles asked, exactly, (used.2 lags).1, fun answers => used.1.mp answers lags⟩

end Highlight
