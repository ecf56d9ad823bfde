/-
**Which breaks an edit keeps.**

An edit splits the breaks of a highlighter into those up to the restart, those it deletes, and those
that it keeps and moves. It goes well unless a sum of positions overflows:

* `Highlighter.restartFor_ends`: the restart is the last break from which no regex sees the edit, or
  else the first;
* `Highlighter.keptFrom_ends`: the breaks that are kept are those that no regex sees the edit from;
* `Highlighter.Sums`: no sum that an edit forms overflows;
* `Highlighter.edit_keeps`: an edit changes the index by deleting breaks and by moving them;
* `Highlighter.Edited`, `Highlighter.edit_ends`: **the breaks after an edit**, with the frontier and the
  marker that go with them.
-/

import Highlight.Proofs.Break.Change
import Highlight.Proofs.Fault
import Highlight.Highlighter.Edit

namespace Highlight.Highlighter

open BreakIndex (Entry)

variable {index : BreakIndex} {entries : List Entry}

/-- The slot of the first break is that of no other. -/
theorem eq_nil_of_first {front back : List Entry} {value : Break}
    (holds : index.Holds (front ++ (BreakIndex.first, value) :: back)) : front = [] := by
  cases front with
  | nil => rfl
  | cons entry rest =>
    obtain ⟨start, others, starts⟩ := holds.starts
    have nodup := holds.nodup
    rw [List.cons_append, List.cons.injEq] at starts
    rw [starts.1] at nodup
    simp at nodup

/-- A break behind another one is not the first. -/
theorem ne_first_of_behind {front back : List Entry} {id : BreakId} {value : Break}
    (holds : index.Holds (front ++ (id, value) :: back)) {entry : Entry} (member : entry ∈ back) :
    entry.1 ≠ BreakIndex.first := by
  rintro same
  obtain ⟨before, after, rfl⟩ := List.mem_iff_append.mp member
  obtain ⟨slot, other⟩ := entry
  subst same
  rw [← List.cons_append, ← List.append_assoc] at holds
  have none := eq_nil_of_first holds
  simp at none

/-- A break is the last one far enough before the edit for no regex to see it, or else the first. -/
def IsRestart (reach start : Nat) (front : List Entry) (value : Break) (back : List Entry) : Prop :=
  (front = [] ∨ value.position + reach ≤ start) ∧
    ∀ entry ∈ back, start < entry.2.position + reach

/-- A walk back from a break with none far enough before the edit behind it ends at the last one that
is, or at the first. -/
theorem walkBack_ends {reach start fuel : Nat} {front back : List Entry} {id : BreakId}
    {value : Break} (holds : index.Holds (front ++ (id, value) :: back))
    (enough : front.length < fuel) (near : ∀ entry ∈ back, start < entry.2.position + reach) :
    Fault.Ends
      (fun fault => fault = .overflow ∧ ∃ entry ∈ front ++ (id, value) :: back,
        entry.1 ≠ BreakIndex.first ∧ maxSize < entry.2.position + reach)
      (fun found => ∃ front' value' back',
        front ++ (id, value) :: back = front' ++ (found, value') :: back' ∧
          IsRestart reach start front' value' back')
      (walkBack index reach start fuel id) := by
  induction fuel generalizing front id value back with
  | zero => cases enough
  | succ fuel ih =>
    rw [walkBack]
    by_cases atFirst : id = BreakIndex.first
    · rw [if_pos atFirst]
      subst atFirst
      exact ⟨front, value, back, rfl, Or.inl (eq_nil_of_first holds), near⟩
    · rw [if_neg atFirst, holds.position_eq, Fault.ok_bind]
      by_cases sum : value.position + reach ≤ maxSize
      · rw [checkedAdd_eq_ok sum, Fault.ok_bind]
        split
        · rename_i sees
          rcases List.eq_nil_or_concat' front with rfl | ⟨before, ⟨previous, older⟩, rfl⟩
          · obtain ⟨start, rest, starts⟩ := holds.starts
            cases starts
            exact absurd rfl atFirst
          · have moved : index.movePrevious id = .ok previous := by
              unfold BreakIndex.movePrevious
              rw [holds.previous_eq, BreakIndex.lastId_append]
              rfl
            have regroup : (before ++ [(previous, older)]) ++ (id, value) :: back =
                before ++ (previous, older) :: (id, value) :: back := by simp
            rw [regroup] at holds ⊢
            rw [List.length_append] at enough
            rw [moved]
            refine ih holds (Nat.lt_of_succ_lt_succ enough) fun entry member => ?_
            rcases List.mem_cons.mp member with rfl | later
            · exact sees
            · exact near entry later
        · rename_i far
          exact ⟨front, value, back, rfl, Or.inr (not_lt.mp far), near⟩
      · rw [checkedAdd_eq_overflow sum]
        exact ⟨rfl, (id, value), List.mem_append_right _ List.mem_cons_self, atFirst, not_le.mp sum⟩

/-- **The restart is the last break from which no regex sees the edit**, or the first if there is none,
wherever the search for it begins. -/
theorem restartFor_ends {reach : Nat} (holds : index.Holds entries)
    (ordered : BreakIndex.Ordered entries)
    (starts : entries.head? = some (BreakIndex.first, Break.first))
    (hint : Option BreakId) (start : Nat) :
    Fault.Ends
      (fun fault => fault = .overflow ∧ ∃ entry ∈ entries,
        entry.1 ≠ BreakIndex.first ∧ maxSize < entry.2.position + reach)
      (fun found => ∃ front value back, entries = front ++ (found, value) :: back ∧
        IsRestart reach start front value back)
      (restartFor index hint reach start) := by
  have begins : ∀ entry ∈ entries.head?, entry.2.position ≤ start := by
    intro entry atHead
    rw [starts] at atHead
    cases atHead
    exact Nat.zero_le _
  obtain ⟨front, id, value, back, rfl, sought, -, behind⟩ :=
    holds.seekBefore_spec ordered begins hint
  have bound := holds.length_le
  rw [List.length_append, List.length_cons] at bound
  unfold restartFor
  rw [sought, Fault.ok_bind]
  exact walkBack_ends holds (by omega) fun entry member =>
    (behind entry member).trans_le (Nat.le_add_right _ _)

/-- **The breaks that are kept are those from which no regex sees the edit.** -/
theorem keptFrom_ends {reach oldEnd fuel : Nat} {front back : List Entry}
    (holds : index.Holds (front ++ back)) (ordered : BreakIndex.Ordered back)
    (enough : back.length ≤ fuel) :
    Fault.Ends (fun fault => fault = .overflow ∧ back ≠ [] ∧ maxSize < oldEnd + reach)
      (fun kept => ∃ gone rest, back = gone ++ rest ∧ kept = BreakIndex.firstId rest none ∧
        (∀ entry ∈ gone, entry.2.position ≤ oldEnd + reach) ∧
        ∀ entry ∈ rest, oldEnd + reach < entry.2.position)
      (keptFrom index reach oldEnd fuel (BreakIndex.firstId back none)) := by
  induction back generalizing front fuel with
  | nil =>
    have none : keptFrom index reach oldEnd fuel (BreakIndex.firstId [] none) = .ok none := by
      cases fuel <;> rfl
    rw [none]
    exact ⟨[], [], rfl, rfl, (fun _ member => nomatch member), fun _ member => nomatch member⟩
  | cons entry rest ih =>
    obtain ⟨id, value⟩ := entry
    cases fuel with
    | zero => cases enough
    | succ fuel =>
      rw [BreakIndex.firstId_cons, keptFrom]
      by_cases sum : oldEnd + reach ≤ maxSize
      · rw [checkedAdd_eq_ok sum, Fault.ok_bind, holds.position_eq, Fault.ok_bind]
        split
        · rename_i beyond
          refine ⟨[], (id, value) :: rest, rfl, rfl, (fun _ member => nomatch member), ?_⟩
          refine ordered.le_of_head fun entry atHead => ?_
          cases atHead
          exact beyond
        · rename_i within
          rw [holds.next_eq, Fault.ok_bind]
          rw [List.append_cons] at holds
          have ends := ih holds (List.pairwise_cons.mp ordered).2 (Nat.le_of_succ_le_succ enough)
          refine (ends.weaken fun fault exceeds => absurd sum (not_le.mpr exceeds.2.2)).mono ?_
          rintro kept ⟨gone, others, rfl, first, near, behind⟩
          refine ⟨(id, value) :: gone, others, rfl, first, fun entry member => ?_, behind⟩
          rcases List.mem_cons.mp member with rfl | later
          · exact not_lt.mp within
          · exact near entry later
      · rw [checkedAdd_eq_overflow sum]
        exact ⟨rfl, List.cons_ne_nil _ _, not_le.mp sum⟩

/-! ### The breaks after an edit -/

/-- The marker that an edit leaves if it restarts at a break not behind the frontier: old breaks up to
the frontier no longer tell that the breaks behind them fit. -/
def markerAt (highlighter : Highlighter) (change : Change) (reached : Nat) : Option Nat :=
  if highlighter.needsProcessing then some (change.carry reached + 1) else none

/-- An edit has kept the breaks of `front`, the restart `value` and, moved along, those of `rest`. Of a
frontier at `reached` it has made what it should. -/
structure Edited (highlighter : Highlighter) (change : Change) (after : Highlighter)
    (reached : Break) (front : List Entry) (restart : BreakId) (value : Break) (rest : List Entry) :
    Prop where
  holds : after.breaks.Holds
    (front ++ (restart, value) :: rest.map (BreakIndex.moveEntry change.delta))
  clear : front = [] ∨ value.position + (highlighter.grammar.maxExtend + 1) ≤ change.start
  behind : ∀ entry ∈ rest,
    change.oldEnd + (highlighter.grammar.maxExtend + 1) < entry.2.position
  grammar : after.grammar = highlighter.grammar
  config : after.config = highlighter.config
  needsProcessing : after.needsProcessing = highlighter.grammar.hasPatterns
  dirty : after.dirty =
    Span.add (highlighter.dirty.map (Span.carry change)) ⟨value.position, change.newEnd⟩
  rewound :
    (value.position ≤ reached.position ∧ after.frontier = restart ∧
      after.restartEnd = later (highlighter.restartEnd.map change.carry)
        (highlighter.markerAt change reached.position)) ∨
    (reached.position < value.position ∧ after.frontier = highlighter.frontier ∧
      after.restartEnd = later (highlighter.restartEnd.map change.carry)
        (some (value.position + 1)))

section Edited

variable {highlighter after : Highlighter} {change : Change} {behind ahead front back rest : List Entry}
  {reached value : Break} {restart : BreakId}

/-- The restart is before the edit. -/
theorem Edited.value_le_start (made : highlighter.Edited change after reached front restart value rest)
    (starts : (front ++ (restart, value) :: back).head? = some (BreakIndex.first, Break.first)) :
    value.position ≤ change.start := by
  rcases made.clear with rfl | clear
  · cases Option.some_inj.mp starts
    exact Nat.zero_le _
  · exact (Nat.le_add_right _ _).trans clear

/-- The frontier after an edit is the restart or one of the breaks before it. -/
theorem Edited.exists_split (made : highlighter.Edited change after reached front restart value rest)
    (ordered : BreakIndex.Ordered (front ++ (restart, value) :: back))
    (split : behind ++ (highlighter.frontier, reached) :: ahead = front ++ (restart, value) :: back) :
    ∃ before final later, front ++ [(restart, value)] = before ++ (after.frontier, final) :: later := by
  rcases made.rewound with ⟨-, frontier, -⟩ | ⟨inFront, frontier, -⟩
  · exact ⟨front, value, [], by rw [frontier]⟩
  · obtain ⟨middle, rfl, -⟩ := ordered.exists_middle split inFront
    exact ⟨behind, reached, middle ++ [(restart, value)], by rw [frontier]; simp⟩

end Edited

/-- No sum of positions that an edit forms overflows. -/
structure Sums (highlighter : Highlighter) (change : Change) (entries : List Entry) (reached : Break) :
    Prop where
  reach : highlighter.grammar.maxExtend + 1 ≤ maxSize
  sees : ∀ entry ∈ entries, entry.1 ≠ BreakIndex.first →
    max change.oldEnd entry.2.position + (highlighter.grammar.maxExtend + 1) ≤ maxSize
  carried : change.carry reached.position + 1 ≤ maxSize
  follows : ∀ entry ∈ entries, entry.2.position + 1 ≤ maxSize

/-- Where an edit takes the frontier back to, and the marker that it leaves. -/
theorem rewind_ends {highlighter : Highlighter} {reached : Nat}
    (here : highlighter.frontierPosition = .ok reached) (change : Change) (restart : BreakId)
    (position : Nat) :
    Fault.Ends
      (fun fault => fault = .overflow ∧
        (maxSize < change.carry reached + 1 ∨ maxSize < position + 1))
      (fun outcome =>
        (position ≤ reached ∧ outcome = (restart, highlighter.markerAt change reached)) ∨
          (reached < position ∧ outcome = (highlighter.frontier, some (position + 1))))
      (highlighter.rewind change restart position) := by
  unfold rewind markerAt
  rw [here, Fault.ok_bind]
  by_cases inFront : position ≤ reached
  · rw [if_pos inFront]
    by_cases pending : highlighter.needsProcessing = true
    · rw [if_pos pending, if_pos pending]
      by_cases sum : change.carry reached + 1 ≤ maxSize
      · rw [checkedAdd_eq_ok sum]
        exact Or.inl ⟨inFront, rfl⟩
      · rw [checkedAdd_eq_overflow sum]
        exact ⟨rfl, Or.inl (not_le.mp sum)⟩
    · rw [if_neg pending, if_neg pending]
      exact Or.inl ⟨inFront, rfl⟩
  · rw [if_neg inFront]
    by_cases sum : position + 1 ≤ maxSize
    · rw [checkedAdd_eq_ok sum]
      exact Or.inr ⟨not_le.mp inFront, rfl⟩
    · rw [checkedAdd_eq_overflow sum]
      exact ⟨rfl, Or.inr (not_le.mp sum)⟩

/-- The breaks between the restart and those that are kept are deleted. -/
theorem delete_spec {front gone rest : List Entry} (holds : index.Holds (front ++ (gone ++ rest)))
    (later : front ≠ []) :
    ∃ other : BreakIndex, other.Holds (front ++ rest) ∧
      ∀ {α : Type} (further : BreakIndex → Except Fault α),
        (match BreakIndex.firstId (gone ++ rest) none with
        | some first =>
          if BreakIndex.firstId (gone ++ rest) none = BreakIndex.firstId rest none then
            pure index >>= further
          else index.deleteRange first (BreakIndex.firstId rest none) >>= further
        | none => pure index >>= further) = further other := by
  cases gone with
  | nil =>
    refine ⟨index, holds, fun further => ?_⟩
    cases rest with
    | nil => rfl
    | cons entry rest => exact if_pos rfl
  | cons entry gone =>
    obtain ⟨id, value⟩ := entry
    have unlike : some id ≠ BreakIndex.firstId rest none := by
      intro same
      cases rest with
      | nil => cases same
      | cons entry rest =>
        cases same
        have nodup := holds.nodup
        simp [List.nodup_append, List.nodup_cons] at nodup
    obtain ⟨other, deleted, holdsOther⟩ := holds.deleteRange_spec later
    refine ⟨other, holdsOther, fun further => ?_⟩
    show (if some id = BreakIndex.firstId rest none then _ else _) = _
    rw [if_neg unlike, deleted]
    rfl

/-- The breaks that are kept move along. -/
theorem shift_spec {front rest : List Entry} (distance : Int) (holds : index.Holds (front ++ rest))
    (small : ∀ entry ∈ rest, entry.2.position ≤ maxSize) :
    ∃ other : BreakIndex, other.Holds (front ++ rest.map (BreakIndex.moveEntry distance)) ∧
      ∀ {α : Type} (further : BreakIndex → Except Fault α),
        (match BreakIndex.firstId rest none with
        | some id => index.shiftFrom id distance >>= further
        | none => pure index >>= further) = further other := by
  cases rest with
  | nil => exact ⟨index, holds, fun further => rfl⟩
  | cons entry rest =>
    obtain ⟨id, value⟩ := entry
    obtain ⟨other, moved, holdsOther⟩ := holds.shiftFrom_spec distance small
    refine ⟨other, holdsOther, fun further => ?_⟩
    show index.shiftFrom id distance >>= further = _
    rw [moved]
    rfl

/-- How far a regex can see from the end of an edit is a size. -/
theorem lt_maxSize_of_edit {highlighter after : Highlighter} {change : Change}
    (went : highlighter.edit change = .ok after) : highlighter.grammar.maxExtend < maxSize := by
  unfold edit at went
  obtain ⟨reach, sum, -⟩ := Fault.bind_eq_ok.mp went
  exact (checkedAdd_eq_ok_iff.mp sum).1

/-- An edit where nothing has been processed and nothing is to be. -/
theorem edit_initial {grammar : Grammar} (config : Config) (small : grammar.maxExtend < maxSize)
    (change : Change) :
    edit ⟨grammar, config, .initial, BreakIndex.first, none, none, false, none⟩ change =
      .ok ⟨grammar, config, .initial, BreakIndex.first, none, some BreakIndex.first,
        grammar.hasPatterns, Span.add none ⟨0, change.newEnd⟩⟩ := by
  have reached : reach grammar = .ok (grammar.maxExtend + 1) := by
    rw [reach, checkedAdd_eq_ok_iff]
    exact ⟨small, rfl⟩
  unfold edit
  simp only [reached]
  rfl

/-! ### Changes of the index -/

section Keeps

variable {motive : BreakIndex → Prop} {α : Type} {further : BreakIndex → Except Fault α} {result : α}

theorem delete_keeps
    (delete : ∀ {index other : BreakIndex} {start : BreakId} {stop : Option BreakId},
      motive index → index.deleteRange start stop = .ok other → motive other)
    {stale kept : Option BreakId} (begins : motive index)
    (went : (match stale with
      | some first =>
        if stale = kept then pure index >>= further else index.deleteRange first kept >>= further
      | none => pure index >>= further) = .ok result) :
    ∃ fewer, motive fewer ∧ further fewer = .ok result := by
  cases stale with
  | none => exact ⟨index, begins, went⟩
  | some first =>
    simp only at went
    split at went
    · exact ⟨index, begins, went⟩
    · obtain ⟨fewer, deleted, went⟩ := Fault.bind_eq_ok.mp went
      exact ⟨fewer, delete begins deleted, went⟩

theorem shift_keeps
    (shift : ∀ {index other : BreakIndex} {id : BreakId} {distance : Int},
      motive index → index.shiftFrom id distance = .ok other → motive other)
    {kept : Option BreakId} {distance : Int} (begins : motive index)
    (went : (match kept with
      | some id => index.shiftFrom id distance >>= further
      | none => pure index >>= further) = .ok result) :
    ∃ moved, motive moved ∧ further moved = .ok result := by
  cases kept with
  | none => exact ⟨index, begins, went⟩
  | some id =>
    obtain ⟨moved, shifted, went⟩ := Fault.bind_eq_ok.mp went
    exact ⟨moved, shift begins shifted, went⟩

/-- What deleting breaks and moving them keeps true of an index is true after an edit. -/
theorem edit_keeps
    (delete : ∀ {index other : BreakIndex} {start : BreakId} {stop : Option BreakId},
      motive index → index.deleteRange start stop = .ok other → motive other)
    (shift : ∀ {index other : BreakIndex} {id : BreakId} {distance : Int},
      motive index → index.shiftFrom id distance = .ok other → motive other)
    {highlighter after : Highlighter} {change : Change} (begins : motive highlighter.breaks)
    (went : highlighter.edit change = .ok after) :
    after.grammar = highlighter.grammar ∧ after.config = highlighter.config ∧
      motive after.breaks := by
  rcases highlighter with
    ⟨grammar, config, breaks, frontier, restartEnd, lastRestart, needsProcessing, dirty⟩
  unfold edit at went
  obtain ⟨reach, -, went⟩ := Fault.bind_eq_ok.mp went
  obtain ⟨restart, -, went⟩ := Fault.bind_eq_ok.mp went
  obtain ⟨position, -, went⟩ := Fault.bind_eq_ok.mp went
  obtain ⟨⟨frontier, marker⟩, -, went⟩ := Fault.bind_eq_ok.mp went
  obtain ⟨stale, -, went⟩ := Fault.bind_eq_ok.mp went
  obtain ⟨kept, -, went⟩ := Fault.bind_eq_ok.mp went
  obtain ⟨fewer, keptFewer, went⟩ := delete_keeps delete begins went
  obtain ⟨moved, keptMoved, went⟩ := shift_keeps shift keptFewer went
  cases went
  exact ⟨rfl, rfl, keptMoved⟩

end Keeps

/-! ### Edits -/

/-- **What an edit makes of the breaks.** -/
theorem edit_ends {highlighter : Highlighter} {behind ahead : List Entry} {reached : Break}
    (holds : highlighter.breaks.Holds (behind ++ (highlighter.frontier, reached) :: ahead))
    (ordered : BreakIndex.Ordered (behind ++ (highlighter.frontier, reached) :: ahead))
    (starts : (behind ++ (highlighter.frontier, reached) :: ahead).head? =
      some (BreakIndex.first, Break.first))
    (small : ∀ entry ∈ behind ++ (highlighter.frontier, reached) :: ahead,
      entry.2.position ≤ maxSize) (change : Change) :
    Fault.Ends
      (fun fault => fault = .overflow ∧
        ¬ highlighter.Sums change (behind ++ (highlighter.frontier, reached) :: ahead) reached)
      (fun after => ∃ front restart value gone rest,
        behind ++ (highlighter.frontier, reached) :: ahead =
          front ++ (restart, value) :: (gone ++ rest) ∧
        IsRestart (highlighter.grammar.maxExtend + 1) change.start front value (gone ++ rest) ∧
        (∀ entry ∈ gone,
          entry.2.position ≤ change.oldEnd + (highlighter.grammar.maxExtend + 1)) ∧
        highlighter.Edited change after reached front restart value rest)
      (highlighter.edit change) := by
  have here : highlighter.frontierPosition = .ok reached.position := holds.position_eq
  generalize listed : behind ++ (highlighter.frontier, reached) :: ahead = entries at *
  by_cases reach : highlighter.grammar.maxExtend + 1 ≤ maxSize
  swap
  · have refused : highlighter.edit change = .error .overflow := by
      unfold edit Highlighter.reach
      rw [checkedAdd_eq_overflow reach]
      rfl
    rw [refused]
    exact ⟨rfl, fun sums => reach sums.reach⟩
  have seen : Highlighter.reach highlighter.grammar = .ok (highlighter.grammar.maxExtend + 1) :=
    checkedAdd_eq_ok reach
  unfold edit
  rw [seen, Fault.ok_bind]
  refine Fault.Ends.bind ((restartFor_ends holds ordered starts
    highlighter.lastRestart change.start).weaken ?_) ?_
  · rintro fault ⟨overflow, entry, member, notFirst, exceeds⟩
    refine ⟨overflow, fun sums => ?_⟩
    have := sums.sees entry member notFirst
    omega
  rintro restart ⟨front, value, back, rfl, isRestart⟩
  rw [holds.position_eq, Fault.ok_bind]
  refine Fault.Ends.bind ((rewind_ends here change restart value.position).weaken ?_) ?_
  · rintro fault ⟨overflow, exceeds⟩
    refine ⟨overflow, fun sums => ?_⟩
    have carried := sums.carried
    have follows : value.position + 1 ≤ maxSize :=
      sums.follows (restart, value) (List.mem_append_right _ List.mem_cons_self)
    omega
  rintro ⟨frontier, marker⟩ rewound
  rcases highlighter with
    ⟨grammar, config, breaks, frontier', restartEnd, lastRestart, needsProcessing, dirty⟩
  have holdsBack := holds
  have orderedBack := ordered
  rw [List.append_cons] at holdsBack orderedBack
  have bound := holds.length_le
  rw [List.length_append, List.length_cons] at bound
  simp only [holds.next_eq, Fault.ok_bind]
  dsimp only at bound
  refine Fault.Ends.bind ((keptFrom_ends holdsBack (List.pairwise_append.mp orderedBack).2.1
    (by omega)).weaken ?_) ?_
  · rintro fault ⟨overflow, some, exceeds⟩
    refine ⟨overflow, fun sums => ?_⟩
    obtain ⟨entry, member⟩ := List.exists_mem_of_ne_nil back some
    have := sums.sees entry (List.mem_append_right _ (List.mem_cons_of_mem _ member))
      (ne_first_of_behind holds member)
    dsimp only at this exceeds
    omega
  rintro kept ⟨gone, rest, rfl, rfl, near, beyond⟩
  obtain ⟨cut, holdsCut, deleted⟩ := delete_spec holdsBack (by simp)
  obtain ⟨moved, holdsMoved, shifted⟩ := shift_spec change.delta holdsCut
    fun entry member => small entry (by simp [member])
  rw [← List.append_cons] at holdsMoved
  refine (congrArg (Fault.Ends _ _) ((deleted _).trans (shifted _))).mpr ?_
  refine ⟨front, restart, value, gone, rest, rfl, isRestart, near,
    holdsMoved, isRestart.1, beyond, rfl, rfl, rfl, rfl, ?_⟩
  rcases rewound with ⟨inFront, same⟩ | ⟨behind, same⟩
  · cases same
    exact Or.inl ⟨inFront, rfl, rfl⟩
  · cases same
    exact Or.inr ⟨behind, rfl, rfl⟩

/-- What an edit that went well has made of the breaks. -/
theorem edited_of_edit {highlighter after : Highlighter} {change : Change} {behind ahead : List Entry}
    {reached : Break}
    (holds : highlighter.breaks.Holds (behind ++ (highlighter.frontier, reached) :: ahead))
    (ordered : BreakIndex.Ordered (behind ++ (highlighter.frontier, reached) :: ahead))
    (starts : (behind ++ (highlighter.frontier, reached) :: ahead).head? =
      some (BreakIndex.first, Break.first))
    (small : ∀ entry ∈ behind ++ (highlighter.frontier, reached) :: ahead,
      entry.2.position ≤ maxSize)
    (went : highlighter.edit change = .ok after) :
    ∃ front restart value gone rest,
      behind ++ (highlighter.frontier, reached) :: ahead =
        front ++ (restart, value) :: (gone ++ rest) ∧
      highlighter.Edited change after reached front restart value rest := by
  have ends := edit_ends holds ordered starts small change
  rw [went] at ends
  obtain ⟨front, restart, value, gone, rest, split, -, -, edited⟩ := ends
  exact ⟨front, restart, value, gone, rest, split, edited⟩

end Highlight.Highlighter
