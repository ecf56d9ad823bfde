/-
**Runs say what the styles of bytes say.**

* `StyledSpan.expand`: the styles of the bytes of some spans;
* `StyledSpan.Tiles`: spans that cover bytes without a gap, none of them empty, and no two neighbours of
  one style;
* `StyledSpan.tiles_runs`, `StyledSpan.expand_runs`: **the runs of some styles are such spans, and the
  styles can be had back from them**;
* `StyledSpan.runs_expand`: there are no others.
-/

import Mathlib.Data.List.TakeWhile
import Highlight.Scan.Runs

namespace Highlight.StyledSpan

/-- The styles of the bytes of some spans, one after the other. -/
def expand (spans : List StyledSpan) : List StyleId :=
  spans.flatMap fun span => List.replicate (span.stop - span.start) span.style

/-- Spans cover the bytes `[start, stop)`: each begins where the one before it ends, none is empty, and
neighbours have different styles. -/
def Tiles : (start : Nat) → List StyledSpan → (stop : Nat) → Prop
  | start, [], stop => start = stop
  | start, span :: rest, stop => span.start = start ∧ start < span.stop ∧
      (∀ next ∈ rest.head?, next.style ≠ span.style) ∧ Tiles span.stop rest stop

variable {start stop : Nat} {spans : List StyledSpan} {style : StyleId}

/-! ### The runs of some styles -/

/-- The first run has the first style. -/
theorem head?_runsFrom (start : Nat) (styles : List StyleId) :
    (runsFrom start styles).head?.map (·.style) = styles.head? := by
  cases styles with
  | nil => rw [runsFrom]; rfl
  | cons style rest => rw [runsFrom]; rfl

theorem takeWhile_eq_replicate (style : StyleId) (styles : List StyleId) :
    styles.takeWhile (· == style) =
      List.replicate (styles.takeWhile (· == style)).length style :=
  List.eq_replicate_of_mem fun _ member =>
    eq_of_beq (List.mem_takeWhile_imp (p := (· == style)) member)

theorem tiles_runsFrom (start : Nat) (styles : List StyleId) :
    Tiles start (runsFrom start styles) (start + styles.length) := by
  induction start, styles using runsFrom.induct with
  | case1 start => rw [runsFrom]; rfl
  | case2 start style rest stop ih =>
    rw [runsFrom]
    have split := congrArg List.length (List.takeWhile_append_dropWhile (p := (· == style)) (l := rest))
    rw [List.length_append] at split
    refine ⟨rfl, by show start < stop; omega, fun next first => ?_, ?_⟩
    · have different := List.head?_dropWhile_not (· == style) rest
      rw [← head?_runsFrom stop, first] at different
      simpa using different
    · have ends : start + (style :: rest).length = stop + (rest.dropWhile (· == style)).length := by
        rw [List.length_cons]
        omega
      rw [ends]
      exact ih

theorem expand_runsFrom (start : Nat) (styles : List StyleId) :
    expand (runsFrom start styles) = styles := by
  induction start, styles using runsFrom.induct with
  | case1 start => rw [runsFrom]; rfl
  | case2 start style rest stop ih =>
    have length : stop - start = (rest.takeWhile (· == style)).length + 1 := by omega
    rw [runsFrom]
    unfold expand at ih ⊢
    rw [List.flatMap_cons, ih]
    show List.replicate (stop - start) style ++ _ = _
    rw [length, List.replicate_succ, ← takeWhile_eq_replicate, List.cons_append,
      List.takeWhile_append_dropWhile]

/-- **The runs of some styles cover them all**, with different styles in neighbours. -/
theorem tiles_runs (styles : List StyleId) : Tiles 0 (runs styles) styles.length := by
  have tiles := tiles_runsFrom 0 styles
  rwa [Nat.zero_add] at tiles

/-- **The styles can be had back from their runs.** -/
theorem expand_runs (styles : List StyleId) : expand (runs styles) = styles := expand_runsFrom 0 styles

/-! ### No other spans -/

/-- The first style of spans that cover bytes is that of the first span. -/
theorem Tiles.head?_expand (tiles : Tiles start spans stop) :
    (expand spans).head? = spans.head?.map (·.style) := by
  cases spans with
  | nil => rfl
  | cons span rest =>
    obtain ⟨rfl, some, -, -⟩ := tiles
    obtain ⟨count, length⟩ : ∃ count, span.stop - span.start = count + 1 :=
      ⟨span.stop - span.start - 1, by omega⟩
    unfold expand
    rw [List.flatMap_cons, length, List.replicate_succ]
    rfl

/-- **Spans that cover bytes are the runs of their styles.** -/
theorem runsFrom_expand (tiles : Tiles start spans stop) : runsFrom start (expand spans) = spans := by
  induction spans generalizing start with
  | nil => exact runsFrom.eq_1 start
  | cons span rest ih =>
    rcases span with ⟨first, last, style⟩
    obtain ⟨rfl, some, different, tilesRest⟩ := tiles
    change first < last at some
    obtain ⟨count, length⟩ : ∃ count, last - first = count + 1 := ⟨last - first - 1, by omega⟩
    have ends : ∀ following ∈ (expand rest).head?, ¬ (following == style) = true := by
      intro following member
      rw [tilesRest.head?_expand] at member
      obtain ⟨next, isNext, rfl⟩ := Option.map_eq_some_iff.mp member
      simpa using different next isNext
    have whole : expand (⟨first, last, style⟩ :: rest) =
        style :: (List.replicate count style ++ expand rest) := by
      unfold expand
      rw [List.flatMap_cons, length, List.replicate_succ, List.cons_append]
    have taken : (expand rest).takeWhile (· == style) = [] := by
      cases here : expand rest with
      | nil => rfl
      | cons following others =>
        rw [here] at ends
        exact List.takeWhile_cons_of_neg (ends following rfl)
    have dropped : (expand rest).dropWhile (· == style) = expand rest := by
      have split := List.takeWhile_append_dropWhile (p := (· == style)) (l := expand rest)
      rwa [taken, List.nil_append] at split
    have all : ∀ other ∈ List.replicate count style, (other == style) = true := by
      intro other member
      rw [List.eq_of_mem_replicate member, beq_self_eq_true]
    rw [whole, runsFrom, List.takeWhile_append_of_pos all, List.dropWhile_append_of_pos all, taken,
      dropped, List.append_nil, List.length_replicate,
      show first + 1 + count = last by omega, ih tilesRest]

theorem runs_expand (tiles : Tiles 0 spans stop) : runs (expand spans) = spans := runsFrom_expand tiles

end Highlight.StyledSpan
