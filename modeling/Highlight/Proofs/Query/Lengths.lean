/-
**An answer has a style for every byte that was asked for.**

Whatever the settings, and whether the run that is kept is a guess or not, a question fails only where a
size that it forms is none:

* `StyleCache.extend_ends`, `StyleCache.serve_ends`: a run that begins before the question serves it;
* `StyleCache.isReusable_ends`, `StyleCache.seed?_ends`: and so does the run that is used again, or a new
  one;
* `StyleCache.styles_ends`: **an answer that has styles has as many as the bytes of the text that were asked
  for**.
-/

import Highlight.Proofs.Query.Reachable

namespace Highlight

open BreakIndex (Entry)

variable {text : Text} {highlighter : Highlighter} {cache : StyleCache} {behind ahead : List Entry}
  {reached : Break}

namespace StyleCache

variable (laid : highlighter.Laid text behind reached ahead)
include laid

/-! ### Runs -/

section Runs

variable {run : StyleRun} (aligned : run.Aligned highlighter.grammar text) {start stop : Nat}
  (inside : stop ≤ text.size)
include aligned inside

/-- A run can be scanned further, unless the end of a window is no size. -/
theorem extend_ends :
    Fault.Ends (· = .overflow) (fun after => after.Aligned highlighter.grammar text ∧
        stop ≤ after.row.stop ∧ after.row.start = run.row.start)
      (extend run text highlighter stop) := by
  unfold extend
  split
  · rename_i short
    have atEnd := aligned.stop
    rcases run with ⟨row, state, exact⟩
    simp only at atEnd short
    by_cases small : 4 * highlighter.config.spacing ≤ maxSize
    · rw [Config.windowUnit_eq small, Fault.ok_bind]
      by_cases fits : state.position +
          max (max Config.minWindowUnit (4 * highlighter.config.spacing)) 1 ≤ maxSize
      · obtain ⟨⟨rowAfter, final, ending⟩, ran, alignedAfter, further, starts⟩ :=
          (scan_ends laid.wellFormed laid.lawful.bounded laid.held aligned False _ stop
            fun _ => Or.inl fits).exists_ok id fun _ _ _ => ⟨_, rfl⟩
        rw [min_eq_left inside] at further
        simp only at ran
        simp only [ran, Fault.ok_bind]
        exact ⟨alignedAfter, further, starts⟩
      · have stops : (Scanner.ofUnit highlighter.grammar
            (max Config.minWindowUnit (4 * highlighter.config.spacing))).run text StyleRow.sink stop
              state row = .error .overflow :=
          Grammar.run_eq_overflow_of_lt _ _ (by omega) (by unfold Config.minWindowUnit at *; omega)
        simp only [stops]
        rfl
    · rw [Config.windowUnit_eq_overflow small]
      rfl
  · rename_i reachedEnd
    exact ⟨aligned, not_lt.mp reachedEnd, rfl⟩

/-- **A run that begins before the question serves it.** -/
theorem serve_ends (hint : Option BreakId) (ordered : start ≤ stop) (begins : run.row.start ≤ start)
    (farthest : Nat) :
    Fault.Ends (· = .overflow) (fun (answer, _) => ∀ value ∈ answer.value?, value.size = stop - start)
      (serve run hint text highlighter start stop farthest) := by
  unfold serve
  refine (extend_ends laid aligned inside).bind ?_
  rintro longer ⟨alignedLonger, further, starts⟩
  have behindStart : longer.row.start ≤ start := starts.trans_le begins
  by_cases fits : 4 * farthest ≤ maxSize
  · obtain ⟨shorter, trimmed⟩ := trim_eq_ok fits behindStart
    obtain ⟨-, stops, -, keeps⟩ := trim_aligned alignedLonger (ordered.trans further) trimmed
    have read : piece shorter.row start stop =
        .ok (shorter.row.styles.extract (start - shorter.row.start) (stop - shorter.row.start)) :=
      if_pos ⟨keeps behindStart, ordered, further.trans stops.ge⟩
    have size : (shorter.row.styles.extract (start - shorter.row.start)
        (stop - shorter.row.start)).size = stop - start := by
      have length : shorter.row.start + shorter.row.styles.size = shorter.row.stop := rfl
      have behindToo := keeps behindStart
      rw [Array.size_extract]
      omega
    rw [trimmed, Fault.ok_bind, read, Fault.ok_bind]
    intro value member
    split at member
    · cases member
      exact size
    · cases member
      exact size
  · have refused : trim longer start farthest = .error .overflow := by
      unfold trim
      rw [checkedMul_eq_overflow fits]
      rfl
    rw [refused]
    exact rfl

end Runs

/-! ### Questions -/

/-- It can be told whether the run that is kept serves a question, unless the place up to which it does is
no size. -/
theorem isReusable_ends {farthest : Nat}
    (distance : highlighter.config.maxDistance highlighter.grammar = .ok farthest) (position : Nat) :
    Fault.Ends (· = .overflow)
      (fun reusable => reusable = true → ∃ run ∈ cache.run, run.row.start ≤ position)
      (cache.isReusable highlighter position farthest) := by
  unfold isReusable
  cases kept : cache.run with
  | none => exact fun reusable => nomatch reusable
  | some run =>
    simp only
    by_cases before : position < run.row.start
    · rw [if_pos before]
      exact fun reusable => nomatch reusable
    · have serves : ∀ reusable : Bool, reusable = true →
          ∃ other ∈ some run, other.row.start ≤ position := fun _ _ => ⟨run, rfl, not_lt.mp before⟩
      rw [if_neg before]
      by_cases sum : run.row.stop + farthest ≤ maxSize
      · obtain ⟨id, value, -, -, -, -, starts⟩ := laid.exists_start distance position
        rw [checkedAdd_eq_ok sum, Fault.ok_bind, (starts cache).1]
        split
        · exact serves false
        · split
          · exact serves true
          · exact serves _
      · rw [checkedAdd_eq_overflow sum]
        rfl

/-- **A question is answered, unless a size overflows**, and an answer that has styles has as many as the
bytes of the text that were asked for. -/
theorem styles_ends (aligned : cache.Aligned highlighter.grammar text) (position count : Nat) :
    Fault.Ends (· = .overflow) (fun (answer, _) => ∀ value ∈ answer.value?,
        value.size = min (position + count) text.size - min position text.size)
      (cache.styles text highlighter position count) := by
  have ordered : min position text.size ≤ min (position + count) text.size := by omega
  have inside : min (position + count) text.size ≤ text.size := min_le_right _ _
  unfold styles
  simp only [min_saturatingAdd laid.held.size_lt_maxSize.le]
  split
  · intro value member
    cases member
    exact Array.size_replicate
  · split
    · rename_i nothing
      intro value member
      cases member
      rw [nothing, Nat.sub_self]
      rfl
    · by_cases fits : highlighter.config.farthest highlighter.grammar ≤ maxSize
      · have distance := Config.maxDistance_eq_ok_iff.mpr
          ⟨fits, Eq.refl (highlighter.config.farthest highlighter.grammar)⟩
        rw [distance, Fault.ok_bind]
        refine (isReusable_ends laid distance (min position text.size)).bind ?_
        intro reusable spec
        split
        · rename_i run hint
          obtain ⟨other, member, begins⟩ := spec rfl
          cases member
          exact serve_ends laid (aligned run rfl) inside hint ordered begins _
        · obtain ⟨id, value, -, -, -, -, starts⟩ :=
            laid.exists_start distance (min position text.size)
          obtain ⟨seed, seeded⟩ : ∃ seed, cache.seed? text highlighter (min position text.size) =
              .ok (seed, id) := ⟨_, (starts cache).2⟩
          rw [seeded, Fault.ok_bind]
          cases seed with
          | none => exact fun value member => nomatch member
          | some run =>
            obtain ⟨runAligned, begins⟩ := laid.seed?_spec seeded
            exact serve_ends laid runAligned inside (some id) ordered begins _
      · rw [Config.maxDistance_eq_overflow fits]
        rfl

end StyleCache

end Highlight
